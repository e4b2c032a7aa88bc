import TinyOS.Stream.Files
import TinyOS.Lib.Words
import TinyOS.Pipe.Basic
import TinyOS.Proc.Info

/-!
# Streams (`kernel_streams.c`, `kernel_pipe.c`, `kernel_socket.c`)

Every system call on streams, by any number of threads of any processes: opening, reading, writing,
closing and duplicating, pipes, sockets and their connections, and what `Exec` and `Exit` do to the
file tables. A system call holds the kernel lock from its entry to its return or to the next
`kernel_wait`. Two calls are cut finer, so that **no step runs more than one `Close` method**:
`Exit` clears its file table entry by entry, and `Read` and `Write` drop their reference to the FCB
in a step of their own. In between, `lock` keeps the other threads out.

The number of a pipe, an SCB or a connection request stands for one call of `malloc`, and not for the
block that it answers; so no number comes twice, and **what a number names after its `free` is left as
it is**. In the source the next `malloc` may answer the same block, and a pointer that is left then
points at something else. `freedPipe` and `freedSCB` count the calls of `free`, and `touchedFreed`
records an access to an SCB that was freed. As long as no freed block is used, which block a `malloc`
answers makes no difference; the conditions `Proper` (`Stream/PipeHeap.lean`) and `Careful`
(`Stream/SocketHeap.lean`) say for which runs that is so. A `malloc` may fail: the caller's action says
which do. `none` is a crash: a `NULL` pointer is followed.

Who sleeps on a condition variable is read off the positions of the threads, except for the
listeners' `reqs_cv`, where a signal wakes the thread that has slept longest. Which PCB `acquire_PCB`
answers is left open, and so is whether an `OpenInfo` gets through the PCBs; the bytes of a terminal
come and go as they please; and a `Connect` may time out at any moment, whatever its timeout. A
`Connect` that takes another kind of object for a socket, and queues a request of it, is where a run
ends (`confused`).
-/

set_option autoImplicit false

namespace TinyOS

open Transition

def MAX_PORT : Int := 1023

inductive SocketType where
  | unbound
  | listener
  | peer
  deriving DecidableEq

/-- A socket control block. The union is kept as its members; `reqQueue` is `none` as long as the
memory of the union does not hold a queue. -/
structure SCB where
  refcount : Int
  /-- 0 is no port. -/
  port : Int
  type : SocketType
  reqQueue : Option (List Nat)
  peer : Option Nat
  send : Option Nat
  receive : Option Nat
  fid : Int

/-- A connection request; its `conn_cv` is where its `Connect` sleeps. -/
structure ConnReq where
  socket : Nat
  accepted : Bool

inductive ShutdownMode where
  | read
  | write
  | both
  deriving DecidableEq

/-- How `kernel_timedwait` ends. -/
inductive TimedWait where
  | asleep
  | signalled
  | timedOut
  deriving DecidableEq

/-- Where a thread stands. -/
inductive StreamPc where
  | unborn
  | running
  /-- Asleep on `hasData` of the pipe `q` (or made ready), in a `Read` of the FCB `f`. -/
  | reading (f q size : Nat) (ready : Bool)
  /-- Asleep on `hasSpace`, in a `Write`. -/
  | writing (f q : Nat) (buf : List Byte) (size : Nat) (ready : Bool)
  /-- Asleep on the `rx_ready` of a terminal. -/
  | serialReading (f size : Nat) (ready : Bool)
  /-- In a `Read` or `Write` whose method has returned. -/
  | returning (f : Nat)
  /-- In `Accept`, asleep on the `reqs_cv` of the SCB `k`. -/
  | accepting (k : Nat) (ready : Bool)
  /-- In `Connect`, asleep on the `conn_cv` of the request `r`. -/
  | connecting (r : Nat) (w : TimedWait)
  /-- In the loop of `Exit`, at fid `i`. -/
  | exiting (i : Int)
  | exited
  deriving DecidableEq

namespace StreamPc

/-- The FCB of a `Read` that is asleep on the `rx_ready` of a terminal. -/
def serialFCB : StreamPc → Option Nat
  | .serialReading f _ false => some f
  | _ => none

/-! Wake-ups. -/

def wakeReader (q : Nat) : StreamPc → StreamPc
  | .reading f q' size ready => .reading f q' size (ready || decide (q' = q))
  | pc => pc

def wakeWriter (q : Nat) : StreamPc → StreamPc
  | .writing f q' buf size ready => .writing f q' buf size (ready || decide (q' = q))
  | pc => pc

def wakeAcceptor (k : Nat) : StreamPc → StreamPc
  | .accepting k' ready => .accepting k' (ready || decide (k' = k))
  | pc => pc

def wakeConnector (r : Nat) : StreamPc → StreamPc
  | .connecting r' .asleep => .connecting r' (if r' = r then .signalled else .asleep)
  | pc => pc

def wakeSerial : StreamPc → StreamPc
  | .serialReading f size _ => .serialReading f size true
  | pc => pc

end StreamPc

/-- The outcomes of the calls of `malloc` that an `Accept` makes: for the SCB and for the two
pipes. -/
structure Mallocs where
  scb : Bool
  receive : Bool
  send : Bool
  deriving DecidableEq

structure Streams extends FileTables where
  pipe : Nat → PipeCB
  pipes : Nat
  freedPipe : Nat → Nat
  scb : Nat → SCB
  scbs : Nat
  freedSCB : Nat → Nat
  touchedFreed : Bool
  PortMap : Int → Option Nat
  /-- The threads asleep on each `reqs_cv`, the longest first. -/
  acceptors : Nat → List Nat
  req : Nat → ConnReq
  reqs : Nat
  serialPorts : Nat
  /-- The `index` of the InfoCB that each FCB holds or held last. -/
  infoIndex : Nat → Nat
  pstate : Nat → PidState
  owner : Nat → Nat
  pc : Nat → StreamPc
  threads : Nat
  /-- The thread that is in the middle of a call. -/
  lock : Option Nat
  /-- `sys_Connect` has queued a request of another kind of stream, as if it were a socket. -/
  confused : Bool
  /-- History: how many streams were opened, which of them each FCB holds or held last, and the
  calls of `Close` methods. -/
  opens : Nat
  opening : Nat → Nat
  closes : List Nat
  /-- The requests for which `Accept` answered a fid, and the ones for which `Connect` answered 0
  or -1. -/
  accepted : List Nat
  connected : List Nat
  refused : List Nat

inductive StreamAction where
  | openNull (u : Nat)
  | openTerminal (u termno : Nat)
  | pipe (u : Nat) (malloc : Bool)
  | socket (u : Nat) (port : Int) (malloc : Bool)
  /-- `info` and `table` are the outcomes of its two calls of `malloc`, and `copied` says whether it
  gets through the PCBs. -/
  | openInfo (u : Nat) (info table copied : Bool)
  | listen (u : Nat) (sock : Int)
  | accept (u : Nat) (lsock : Int) (m : Mallocs)
  | connect (u : Nat) (sock port : Int) (malloc : Bool)
  | shutDown (u : Nat) (sock : Int) (how : ShutdownMode)
  /-- `data` says whether a terminal has a byte now. -/
  | read (u : Nat) (fd : Int) (size : Nat) (data : Bool)
  | write (u : Nat) (fd : Int) (buf : List Byte) (size : Nat)
  | close (u : Nat) (fd : Int)
  | dup2 (u : Nat) (oldfd newfd : Int)
  /-- `q` is the PCB of the new process; `call` says whether its task is not `NULL`. -/
  | exec (u q : Nat) (call : Bool)
  | createThread (u : Nat)
  | exit (u : Nat)
  /-- The PCB of a zombie is released. -/
  | reap (p : Nat)
  /-- A thread that was made ready goes on. -/
  | resume (u : Nat) (data : Bool) (m : Mallocs)
  /-- The thread in the middle of a call goes on. -/
  | proceed (u : Nat)
  /-- `serial_rx_handler`. -/
  | rxReady
  | timeout (u : Nat)

namespace Streams

def goto (s : Streams) (u : Nat) (pc : StreamPc) : Streams :=
  { s with pc := Function.update s.pc u pc }

def setPipe (s : Streams) (q : Nat) (b : PipeCB) : Streams :=
  { s with pipe := Function.update s.pipe q b }

def modifySCB (s : Streams) (k : Nat) (f : SCB → SCB) : Streams :=
  { s with scb := Function.update s.scb k (f (s.scb k)) }

/-- An access to an SCB through a pointer. -/
def access (s : Streams) (k : Nat) : Streams :=
  if s.freedSCB k = 0 then s else { s with touchedFreed := true }

/-! ## Condition variables -/

/-- `Cond_Broadcast(&pipe->hasData)`. -/
def broadcastHasData (s : Streams) (q : Nat) : Streams :=
  { s with pc := fun u => (s.pc u).wakeReader q }

/-- `Cond_Broadcast(&pipe->hasSpace)`. -/
def broadcastHasSpace (s : Streams) (q : Nat) : Streams :=
  { s with pc := fun u => (s.pc u).wakeWriter q }

/-- `Cond_Signal(& k->reqs_cv)`. -/
def signalReqs (s : Streams) (k : Nat) : Streams :=
  match s.acceptors k with
  | [] => s
  | u :: us =>
    { s.goto u ((s.pc u).wakeAcceptor k) with
      acceptors := Function.update s.acceptors k us }

/-- `Cond_Broadcast(& k->reqs_cv)`. -/
def broadcastReqs (s : Streams) (k : Nat) : Streams :=
  { s with
    pc := fun u => (s.pc u).wakeAcceptor k
    acceptors := Function.update s.acceptors k [] }

/-- `Cond_Signal(& r->conn_cv)`. Only the `Connect` that made the request sleeps there, and not any
more once it has timed out. -/
def signalConn (s : Streams) (r : Nat) : Streams :=
  { s with pc := fun u => (s.pc u).wakeConnector r }

/-! ## Pipes -/

/-- `writer_close`. -/
def writerClose (s : Streams) (q : Nat) : Streams :=
  if (s.pipe q).writerClosed then s
  else (s.setPipe q { s.pipe q with writerClosed := true }).broadcastHasData q

/-- `reader_close`. -/
def readerClose (s : Streams) (q : Nat) : Streams :=
  if (s.pipe q).readerClosed then s
  else
    let s := s.setPipe q { s.pipe q with readerClosed := true }
    let s := s.broadcastHasSpace q
    let s := s.writerClose q
    { s with freedPipe := Function.update s.freedPipe q (s.freedPipe q + 1) }

/-- `get_pipe`. -/
def newPipe (s : Streams) (malloc : Bool) : Option Nat × Streams :=
  if malloc then (some s.pipes, { s.setPipe s.pipes getPipe with pipes := s.pipes + 1 })
  else (none, s)

/-! ## Sockets -/

/-- `sys_ShutDown` of the read side of the SCB `k`, whose peer is `j`. -/
def shutRead (s : Streams) (k j : Nat) : Streams :=
  match (s.scb k).receive with
  | none => s
  | some q =>
    let s := s.readerClose q
    let s := s.modifySCB k fun b => { b with receive := none }
    (s.access j).modifySCB j fun b => { b with send := none }

/-- And of the write side. -/
def shutWrite (s : Streams) (k : Nat) : Streams :=
  match (s.scb k).send with
  | none => s
  | some q => (s.writerClose q).modifySCB k fun b => { b with send := none }

/-- `sys_ShutDown` in process `p`; -1 changes nothing. -/
def sysShutDown (s : Streams) (p : Nat) (sock : Int) (how : ShutdownMode) : Streams :=
  match (s.getFCB p sock).bind fun f => (s.FT f).stream with
  | some (.socket k) =>
    let s := s.access k
    match (s.scb k).type, (s.scb k).peer with
    | .peer, some j =>
      let s := if how = .read ∨ how = .both then s.shutRead k j else s
      if how = .write ∨ how = .both then s.shutWrite k else s
    | _, _ => s
  | _ => s

/-- `socket_close` of a listener. It yields the CPU, not the kernel lock. -/
def listenerClose (s : Streams) (k : Nat) : Streams :=
  let s := s.modifySCB k fun b => { b with refcount := 0 }
  let s := s.broadcastReqs k
  let port := (s.scb k).port
  if s.PortMap port = some k then { s with PortMap := Function.update s.PortMap port none } else s

/-- `socket_close` of a peer, in process `p`. -/
def peerClose (s : Streams) (p k : Nat) : Option Streams :=
  let s := s.sysShutDown p (s.scb k).fid .both
  match (s.scb k).peer with
  | none => none
  | some j => some ((s.access j).modifySCB j fun b => { b with receive := none })

def freeSCB (s : Streams) (k : Nat) : Streams :=
  { s with freedSCB := Function.update s.freedSCB k (s.freedSCB k + 1) }

/-- `socket_close`, in process `p`. -/
def socketClose (s : Streams) (p k : Nat) : Option Streams :=
  let s := s.access k
  if 1 < (s.scb k).refcount then some s
  else
    match (s.scb k).type with
    | .unbound => some (s.freeSCB k)
    | .listener => some ((s.listenerClose k).freeSCB k)
    | .peer => (s.peerClose p k).map fun s => s.freeSCB k

/-- The `Close` method of a stream. -/
def closeStream (s : Streams) (p : Nat) : Stream → Option Streams
  | .null | .serial _ | .info => some s
  | .reader q => some (s.readerClose q)
  | .writer q => some (s.writerClose q)
  | .socket k => s.socketClose p k

/-! ## Files -/

/-- `FCB_decref`, in process `p`. -/
def decrefFCB (s : Streams) (p f : Nat) : Option Streams :=
  let s := { s with toFileTables := s.decrementFCB f }
  if (s.FT f).refcount = 0 then
    match (s.FT f).stream with
    | none => none
    | some st =>
      (s.closeStream p st).map fun s => { s with
        closes := s.closes ++ [s.opening f]
        toFileTables := s.releaseFCB f }
  else some s

/-- The same, where there may be no FCB. -/
def decrefEntry (s : Streams) (p : Nat) : Option Nat → Option Streams
  | none => some s
  | some f => s.decrefFCB p f

/-- The FCB gets its `streamobj` and its `streamfunc`. -/
def openFCB (s : Streams) (f : Nat) (st : Stream) : Streams :=
  { s with
    toFileTables := s.modifyFCB f fun b => { b with stream := some st }
    opens := s.opens + 1
    opening := Function.update s.opening f s.opens }

/-- `open_stream`; `device` is what `device_open` finds. -/
def openStream (s : Streams) (p : Nat) (device : Option Stream) : Streams :=
  match s.reserveFCB 1 p with
  | (some [(fid, f)], t) =>
    match device with
    | none => { s with toFileTables := t.unreserveFCB p [(fid, f)] }
    | some st => { s with toFileTables := t }.openFCB f st
  | (_, t) => { s with toFileTables := t }

/-- `sys_Pipe`. It does not check what `get_pipe` returns. -/
def sysPipe (s : Streams) (p : Nat) (malloc : Bool) : Option Streams :=
  match s.reserveFCB 2 p with
  | (some [(_, f₀), (_, f₁)], t) =>
    match { s with toFileTables := t }.newPipe malloc with
    | (none, _) => none
    | (some q, s) => some ((s.openFCB f₀ (.reader q)).openFCB f₁ (.writer q))
  | (_, t) => some { s with toFileTables := t }

/-- `sys_Socket`: the fid, or `none` for `NOFILE`. A `malloc` that fails leaves the fid reserved. -/
def sysSocket (s : Streams) (p : Nat) (port : Int) (malloc : Bool) : Option Int × Streams :=
  if port < 0 ∨ MAX_PORT < port then (none, s)
  else
    match s.reserveFCB 1 p with
    | (some [(fid, f)], t) =>
      let s := { s with toFileTables := t }
      if malloc then
        let k := s.scbs
        let b : SCB :=
          { refcount := 0, port := port, type := .unbound, reqQueue := none
            peer := none, send := none, receive := none
            fid := if port = 0 then 0 else fid }
        (some fid, { s with
          scb := Function.update s.scb k b
          scbs := k + 1 }.openFCB f (.socket k))
      else (none, s)
    | (_, t) => (none, { s with toFileTables := t })

/-- The number of the PCBs in use. -/
def processCount (s : Streams) : Nat :=
  (List.range MAX_PROC).countP fun p => decide (s.pstate p ≠ .free)

/-- `sys_OpenInfo`: the fid, or `none` for `NOFILE`. A `malloc` that fails leaves the fid reserved,
and a record that cannot be copied is a crash. The `index` is left behind the last record. -/
def sysOpenInfo (s : Streams) (p : Nat) (info table copied : Bool) :
    Option (Option Int × Streams) :=
  match s.reserveFCB 1 p with
  | (some [(fid, f)], t) =>
    let s := { s with toFileTables := t }
    if info = false ∨ table = false then some (none, s)
    else if copied then
      some (some fid,
        { s with infoIndex := Function.update s.infoIndex f s.processCount }.openFCB f .info)
    else none
  | (_, t) => some (none, { s with toFileTables := t })

/-- `sys_Listen`; -1 changes nothing. -/
def sysListen (s : Streams) (p : Nat) (sock : Int) : Streams :=
  match (s.getFCB p sock).bind fun f => (s.FT f).stream with
  | some (.socket k) =>
    let s := s.access k
    let port := (s.scb k).port
    if port ≠ 0 ∧ s.PortMap port = none ∧ (s.scb k).refcount = 0 then
      let s := s.modifySCB k fun b =>
        { b with
          reqQueue := some [], peer := none, send := none, receive := none
          refcount := b.refcount + 1, type := .listener }
      { s with PortMap := Function.update s.PortMap port (some k) }
    else s
  | _ => s

/-- `create_pipe` for the server's SCB `k`, whose peer is `j`. -/
def createPipe (s : Streams) (k j : Nat) (m : Mallocs) : Streams :=
  let (receive, s) := s.newPipe m.receive
  let (send, s) := s.newPipe m.send
  let s := s.modifySCB k fun b => { b with send := send, receive := receive }
  s.modifySCB j fun b => { b with send := receive, receive := send }

/-- `conn_struct->accepted = 1`. -/
def setAccepted (s : Streams) (r : Nat) : Streams :=
  { s with
    req := Function.update s.req r { s.req r with accepted := true }
    accepted := s.accepted ++ [r] }

/-- Steps 3 to 6 of `sys_Accept`: the server's SCB `k` and the client's SCB `j` become peers, and
the client is woken. -/
def connectPeers (s : Streams) (k j r : Nat) (m : Mallocs) : Streams :=
  let s := s.modifySCB k fun b => { b with refcount := 1, type := .peer, peer := some j }
  let s := s.modifySCB j fun b => { b with type := .peer, peer := some k, reqQueue := none }
  ((s.createPipe k j m).setAccepted r).signalConn r

/-- Step 1 of `sys_Accept`: the request `r` is taken off the queue of the listener `l`, which then
holds `rs`. -/
def popRequest (s : Streams) (l r : Nat) (rs : List Nat) : Streams :=
  let s := s.modifySCB l fun b => { b with reqQueue := some rs }
  (s.access (s.req r).socket).modifySCB (s.req r).socket fun b => { b with refcount := 1 }

/-- `sys_Accept` from its step 1 on, for the listener `l`. On an empty queue the pop answers the
list node itself, whose request is `NULL`. -/
def acceptRequest (s : Streams) (p l : Nat) (m : Mallocs) : Option Streams :=
  match (s.scb l).reqQueue with
  | some (r :: rs) =>
    let s := s.popRequest l r rs
    match s.sysSocket p (s.scb l).port m.scb with
    | (none, s) => some (s.signalConn r)
    | (some fid, s) =>
      match (s.getFCB p fid).bind fun f => (s.FT f).stream with
      | some (.socket k) => some (s.connectPeers k (s.req r).socket r m)
      | _ => none
  | _ => none

/-- `sys_Accept`, up to its `kernel_wait`. -/
def sysAccept (s : Streams) (u : Nat) (lsock : Int) (m : Mallocs) : Option Streams :=
  let p := s.owner u
  match (s.getFCB p lsock).bind fun f => (s.FT f).stream with
  | some (.socket l) =>
    let s := s.access l
    if (s.scb l).type ≠ .listener ∨ s.PortMap (s.scb l).port = none then some s
    else if (s.scb l).reqQueue = some [] then
      some { s.goto u (.accepting l false) with
        acceptors := Function.update s.acceptors l (s.acceptors l ++ [u]) }
    else s.acceptRequest p l m
  | _ => some s

/-- `sys_Accept` from its `kernel_wait` on. -/
def resumeAccept (s : Streams) (u l : Nat) (m : Mallocs) : Option Streams :=
  let s := (s.access l).goto u .running
  if (s.scb l).refcount = 0 then some s else s.acceptRequest (s.owner u) l m

/-- A thread sleeps on the `rx_ready` of the terminal `term`. -/
def awaitsSerial (s : Streams) (term : Nat) : Prop :=
  ∃ u < s.threads, ∃ f ∈ (s.pc u).serialFCB, (s.FT f).stream = some (.serial term)

instance (s : Streams) (term : Nat) : Decidable (s.awaitsSerial term) :=
  inferInstanceAs (Decidable (∃ u < s.threads, ∃ f ∈ (s.pc u).serialFCB, _))

/-- In the object of the stream of the FCB `f`, which is no socket, the word is 0 that an SCB has as
its `type`, at offset 8; and 0 is `UNBOUND`. In a `serial_dcb_t` that word is one half of the pointer
to the first waiter on `rx_ready`; no waiter is taken to be at a multiple of `2 ^ 32`. In a PipeCB it
lies in the ring, and in an InfoCB it is the `index`. -/
def looksUnbound (s : Streams) (f : Nat) : Prop :=
  match (s.FT f).stream with
  | some (.serial term) => ¬ s.awaitsSerial term
  | some (.reader q) | some (.writer q) =>
    Words.ofBytes ((List.range' 8 4).map (s.pipe q).buffer) = 0
  | some .info => s.infoIndex f = 0
  | none | some .null | some (.socket _) => False

instance (s : Streams) (f : Nat) : Decidable (s.looksUnbound f) := by
  unfold looksUnbound
  split <;> infer_instance

/-- The rest of `sys_Connect`, where the fid denotes another stream. -/
def connectOther (s : Streams) (f : Nat) (malloc : Bool) : Streams :=
  if s.looksUnbound f ∧ malloc = true then { s with confused := true } else s

/-- `sys_Connect`, up to its `kernel_timedwait`; -1 changes nothing. It takes whatever stream the
fid denotes for a socket; the null device has no object, and its `NULL` is followed. -/
def sysConnect (s : Streams) (u : Nat) (sock port : Int) (malloc : Bool) : Option Streams :=
  if sock < 0 ∨ (MAX_FILEID : Int) ≤ sock ∨ port < 0 ∨ MAX_PORT < port then some s
  else
    match s.PortMap port with
    | none => some s
    | some l =>
      let s := s.access l
      if (s.scb l).type ≠ .listener then some s
      else
        match s.getFCB (s.owner u) sock with
        | none => some s
        | some f =>
          match (s.FT f).stream with
          | none | some .null => none
          | some (.serial _) | some (.reader _) | some (.writer _) | some .info =>
            some (s.connectOther f malloc)
          | some (.socket k) =>
            let s := s.access k
            if (s.scb k).type ≠ .unbound ∨ malloc = false then some s
            else
              let r := s.reqs
              let s := { s with
                req := Function.update s.req r { socket := k, accepted := false }
                reqs := r + 1 }
              let s := s.modifySCB l fun b => { b with reqQueue := b.reqQueue.map (· ++ [r]) }
              some ((s.signalReqs l).goto u (.connecting r .asleep))

/-- `sys_Connect` from its `kernel_timedwait` on. -/
def resumeConnect (s : Streams) (u r : Nat) (w : TimedWait) : Streams :=
  let s := s.goto u .running
  if w = .signalled ∧ (s.req r).accepted = true then { s with connected := s.connected ++ [r] }
  else { s with refused := s.refused ++ [r] }

/-! ## `Read` and `Write` -/

/-- The method has returned. -/
def returnFrom (s : Streams) (u f : Nat) : Streams :=
  { s.goto u (.returning f) with lock := some u }

/-- A stretch of `pipe_read`. -/
def pipeReadStretch (s : Streams) (u f q size : Nat) : Streams :=
  match pipeRead (s.pipe q) size with
  | .wait => s.goto u (.reading f q size false)
  | .ret _ _ b wake =>
    let s := s.setPipe q b
    (if wake then s.broadcastHasSpace q else s).returnFrom u f

/-- How a stretch of `pipe_write` ends. -/
def endWrite (s : Streams) (u f q : Nat) (buf : List Byte) (size : Nat) : WriteStretch → Streams
  | .wait => s.goto u (.writing f q buf size false)
  | .ret _ b wake =>
    let s := s.setPipe q b
    (if wake then s.broadcastHasData q else s).returnFrom u f

/-- What `pipe_write` is passed. -/
def bytes (buf : List Byte) : Nat → Byte := fun i => buf.getD i 0

/-- `info_read` moves the `index`. -/
def infoRead (s : Streams) (f size : Nat) : Streams :=
  if size = procinfoSize ∧ s.infoIndex f ≠ 2 ^ 32 - 1 then
    { s with infoIndex := Function.update s.infoIndex f (sub32 (s.infoIndex f) 1) }
  else s

/-- A stretch of `serial_read`. -/
def serialReadStretch (s : Streams) (u f size : Nat) (data : Bool) : Streams :=
  if size = 0 ∨ data = true then s.returnFrom u f else s.goto u (.serialReading f size false)

/-- `sys_Read`. -/
def sysRead (s : Streams) (u : Nat) (fd : Int) (size : Nat) (data : Bool) : Option Streams :=
  match s.getFCB (s.owner u) fd with
  | none => some s
  | some f =>
    let s' := { s with toFileTables := s.increfFCB f }
    match (s.FT f).stream with
    | none => none
    | some .null | some (.writer _) => some (s'.returnFrom u f)
    | some .info => some ((s'.infoRead f size).returnFrom u f)
    | some (.serial _) => some (s'.serialReadStretch u f size data)
    | some (.reader q) => some (s'.pipeReadStretch u f q size)
    | some (.socket k) =>
      let s' := s'.access k
      match (s'.scb k).type, (s'.scb k).peer, (s'.scb k).receive with
      | .peer, some _, some q => some (s'.pipeReadStretch u f q size)
      | _, _, _ => some (s'.returnFrom u f)

/-- `sys_Write`. -/
def sysWrite (s : Streams) (u : Nat) (fd : Int) (buf : List Byte) (size : Nat) : Option Streams :=
  match s.getFCB (s.owner u) fd with
  | none => some s
  | some f =>
    let s' := { s with toFileTables := s.increfFCB f }
    match (s.FT f).stream with
    | none => none
    | some .null | some (.reader _) | some (.serial _) | some .info => some (s'.returnFrom u f)
    | some (.writer q) => some (s'.endWrite u f q buf size (pipeWrite (s'.pipe q) (bytes buf) size))
    | some (.socket k) =>
      let s' := s'.access k
      match (s'.scb k).type, (s'.scb k).peer, (s'.scb k).send with
      | .peer, some _, some q =>
        some (s'.endWrite u f q buf size (pipeWrite (s'.pipe q) (bytes buf) size))
      | _, _, _ => some (s'.returnFrom u f)

/-! ## `Close`, `Dup2`, `Exec` and `Exit` -/

/-- `sys_Close`, in process `p`. -/
def sysClose (s : Streams) (p : Nat) (fd : Int) : Option Streams :=
  match s.getFCB p fd with
  | none => some s
  | some f => { s with toFileTables := s.setEntry p fd none }.decrefFCB p f

/-- `sys_Dup2`, in process `p`. The new entry is still set when the old stream is closed. -/
def sysDup2 (s : Streams) (p : Nat) (oldfd newfd : Int) : Option Streams :=
  if oldfd < 0 ∨ newfd < 0 ∨ (MAX_FILEID : Int) ≤ oldfd ∨ (MAX_FILEID : Int) ≤ newfd then some s
  else
    match s.getFCB p oldfd with
    | none => some s
    | some f =>
      let g := s.getFCB p newfd
      if g = some f then some s
      else
        (s.decrefEntry p g).map fun s =>
          { s with toFileTables := (s.increfFCB f).setEntry p newfd (some f) }

/-- A new thread of process `p`. -/
def spawnThread (s : Streams) (p : Nat) : Streams :=
  { s with
    owner := Function.update s.owner s.threads p
    pc := Function.update s.pc s.threads .running
    threads := s.threads + 1 }

/-- `sys_Exec`, where `acquire_PCB` answered `q`. -/
def sysExec (s : Streams) (p q : Nat) (call : Bool) : Streams :=
  let s := { s with
    pstate := Function.update s.pstate q .alive
    toFileTables := s.inherit p q FileTables.fids }
  if call then s.spawnThread q else s

/-- A turn of the loop of `sys_Exit` over the `FIDT`. -/
def exitEntry (s : Streams) (p : Nat) (i : Int) : Option Streams :=
  (s.decrefEntry p (s.FIDT p i)).map fun s => { s with toFileTables := s.setEntry p i none }

/-- The rest of `sys_Exit`. -/
def finishExit (s : Streams) (u : Nat) : Streams :=
  { s.goto u .exited with
    pstate := Function.update s.pstate (s.owner u) .zombie
    lock := none }

/-! ## The system -/

/-- The thread may make a system call. -/
def ready (s : Streams) (u : Nat) : Prop := s.lock = none ∧ s.pc u = .running

instance (s : Streams) (u : Nat) : Decidable (s.ready u) := inferInstanceAs (Decidable (_ ∧ _))

/-- A system call, by a thread that may make it. -/
def call (s : Streams) (u : Nat) : StreamAction → Option Streams
  | .openNull _ => some (s.openStream (s.owner u) (some .null))
  | .openTerminal _ termno =>
    some (s.openStream (s.owner u) (if termno < s.serialPorts then some (.serial termno) else none))
  | .pipe _ malloc => s.sysPipe (s.owner u) malloc
  | .socket _ port malloc => some (s.sysSocket (s.owner u) port malloc).2
  | .openInfo _ info table copied =>
    (s.sysOpenInfo (s.owner u) info table copied).map fun r => r.2
  | .listen _ sock => some (s.sysListen (s.owner u) sock)
  | .accept _ lsock m => s.sysAccept u lsock m
  | .connect _ sock port malloc => s.sysConnect u sock port malloc
  | .shutDown _ sock how => some (s.sysShutDown (s.owner u) sock how)
  | .read _ fd size data => s.sysRead u fd size data
  | .write _ fd buf size => s.sysWrite u fd buf size
  | .close _ fd => s.sysClose (s.owner u) fd
  | .dup2 _ oldfd newfd => s.sysDup2 (s.owner u) oldfd newfd
  | .exec _ q call =>
    if s.pstate q = .free then some (s.sysExec (s.owner u) q call) else none
  | .createThread _ => some (s.spawnThread (s.owner u))
  | .exit _ => some { s.goto u (.exiting 0) with lock := some u }
  | _ => none

/-- The thread that makes the call; `none` for what is not a system call. -/
def caller : StreamAction → Option Nat
  | .openNull u | .openTerminal u _ | .pipe u _ | .socket u _ _ | .openInfo u _ _ _ | .listen u _
  | .accept u _ _
  | .connect u _ _ _ | .shutDown u _ _ | .read u _ _ _ | .write u _ _ _ | .close u _
  | .dup2 u _ _ | .exec u _ _ | .createThread u | .exit u => some u
  | .reap _ | .resume _ _ _ | .proceed _ | .rxReady | .timeout _ => none

/-- A thread that was made ready has the kernel lock again. -/
def resume (s : Streams) (u : Nat) (data : Bool) (m : Mallocs) : Option Streams :=
  match s.pc u with
  | .reading f q size true => some (s.pipeReadStretch u f q size)
  | .writing f q buf size true =>
    some (s.endWrite u f q buf size (pipeWriteLoop (s.pipe q) (bytes buf) size))
  | .serialReading f size true => some (s.serialReadStretch u f size data)
  | .accepting l true => s.resumeAccept u l m
  | .connecting r .signalled => some (s.resumeConnect u r .signalled)
  | .connecting r .timedOut => some (s.resumeConnect u r .timedOut)
  | _ => none

/-- The thread that holds the kernel lock goes on. -/
def proceed (s : Streams) (u : Nat) : Option Streams :=
  match s.pc u with
  | .returning f =>
    let s := { s.goto u .running with lock := none }
    s.decrefFCB (s.owner u) f
  | .exiting i =>
    if i < MAX_FILEID then
      (s.exitEntry (s.owner u) i).map fun s => s.goto u (.exiting (i + 1))
    else some (s.finishExit u)
  | _ => none

def perform (s : Streams) (a : StreamAction) : Option Streams :=
  if s.confused then none
  else match a with
  | .reap p =>
    if s.pstate p = .zombie then some { s with pstate := Function.update s.pstate p .free }
    else none
  | .resume u data m => if s.lock = none then s.resume u data m else none
  | .proceed u => if s.lock = some u then s.proceed u else none
  | .rxReady =>
    some { s with pc := fun u => (s.pc u).wakeSerial }
  | .timeout u =>
    match s.pc u with
    | .connecting r .asleep => some (s.goto u (.connecting r .timedOut))
    | _ => none
  | a =>
    match caller a with
    | none => none
    | some u => if s.ready u then s.call u a else none

/-- The kernel has booted: the null process and the initial task, with its one thread. -/
def initial (serialPorts : Nat) : Streams where
  toFileTables := .initializeFiles
  pipe _ := getPipe
  pipes := 0
  freedPipe _ := 0
  scb _ :=
    { refcount := 0, port := 0, type := .unbound, reqQueue := none
      peer := none, send := none, receive := none, fid := 0 }
  scbs := 0
  freedSCB _ := 0
  touchedFreed := false
  PortMap _ := none
  acceptors _ := []
  req _ := { socket := 0, accepted := false }
  reqs := 0
  serialPorts := serialPorts
  infoIndex _ := 0
  pstate p := if p ≤ 1 then .alive else .free
  owner _ := 1
  pc u := if u = 0 then .running else .unborn
  threads := 1
  lock := none
  confused := false
  opens := 0
  opening _ := 0
  closes := []
  accepted := []
  connected := []
  refused := []

end Streams

def streamSys : Sys Streams StreamAction where
  init s := ∃ serialPorts, s = .initial serialPorts
  step := Streams.perform

end TinyOS
