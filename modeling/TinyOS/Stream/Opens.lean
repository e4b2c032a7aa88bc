import TinyOS.Stream.Reserve
import TinyOS.Stream.Sockets

/-!
# Calls that open streams, and fail (`kernel_streams.c`, `kernel_socket.c`, `kernel_pipe.c`,
`kernel_proc.c`)

Six system calls reserve fids: `OpenNull`, `OpenTerminal`, `Socket`, `Pipe`, `OpenInfo` and `Accept`.
Each may find out later that it cannot open its stream. `open_stream` then undoes the reservation;
**the others do not**. `Socket` and `OpenInfo` return `NOFILE` with the fid still reserved, `Accept`
does what its `Socket` does, and `Pipe` follows a `NULL` pointer.

The functions of `Basic` keep the state that a call leaves. What it returns is added here, and an
`Accept` that sleeps in between is two calls: up to its `kernel_wait`, and from there on.
-/

set_option autoImplicit false

namespace TinyOS

open FileTables

/-- What a call returns. -/
inductive Answer where
  /-- `NOFILE`, or -1. -/
  | error
  | fids (is : List Int)
  /-- It sleeps. -/
  | asleep
  deriving DecidableEq

/-- The calls that reserve fids, each with the outcomes of its calls of `malloc`. -/
inductive OpenCall where
  | openNull
  | openTerminal (termno : Nat)
  | socket (port : Int) (malloc : Bool)
  | pipe (malloc : Bool)
  /-- `copied` says whether it gets through the PCBs. -/
  | openInfo (info table copied : Bool)
  | accept (lsock : Int) (m : Mallocs)
  /-- An `Accept` at the SCB `l` that was woken. -/
  | acceptWoken (l : Nat) (m : Mallocs)

/-- A fid that may be `NOFILE`. -/
def Answer.ofFid : Option Int → Answer
  | none => .error
  | some fid => .fids [fid]

/-- The action of the system that the call is. -/
def OpenCall.action (u : Nat) : OpenCall → StreamAction
  | .openNull => .openNull u
  | .openTerminal termno => .openTerminal u termno
  | .socket port malloc => .socket u port malloc
  | .pipe malloc => .pipe u malloc
  | .openInfo info table copied => .openInfo u info table copied
  | .accept lsock m => .accept u lsock m
  | .acceptWoken _ m => .resume u false m

namespace Streams

/-! ## What the calls return -/

def openStreamAnswer (s : Streams) (p : Nat) (device : Option Stream) : Answer :=
  match (s.reserveFCB 1 p).1, device with
  | some es, some _ => .fids (es.map (·.1))
  | _, _ => .error

def sysPipeAnswer (s : Streams) (p : Nat) : Answer :=
  match (s.reserveFCB 2 p).1 with
  | none => .error
  | some es => .fids (es.map (·.1))

/-- `server_fid`. -/
def acceptRequestAnswer (s : Streams) (p l : Nat) (m : Mallocs) : Answer :=
  match (s.scb l).reqQueue with
  | some (r :: rs) =>
    let s := s.popRequest l r rs
    .ofFid (s.sysSocket p (s.scb l).port m.scb).1
  | _ => .error

def sysAcceptAnswer (s : Streams) (u : Nat) (lsock : Int) (m : Mallocs) : Answer :=
  let p := s.owner u
  match (s.getFCB p lsock).bind fun f => (s.FT f).stream with
  | some (.socket l) =>
    let s := s.access l
    if (s.scb l).type ≠ .listener ∨ s.PortMap (s.scb l).port = none then .error
    else if (s.scb l).reqQueue = some [] then .asleep
    else s.acceptRequestAnswer p l m
  | _ => .error

def resumeAcceptAnswer (s : Streams) (u l : Nat) (m : Mallocs) : Answer :=
  let s := (s.access l).goto u .running
  if (s.scb l).refcount = 0 then .error else s.acceptRequestAnswer (s.owner u) l m

/-- What `OpenTerminal` finds. -/
def serialDevice (s : Streams) (termno : Nat) : Option Stream :=
  if termno < s.serialPorts then some (.serial termno) else none

/-- A call by thread `u`: what it returns, and the state it leaves; `none` is a crash. -/
def runOpen (s : Streams) (u : Nat) : OpenCall → Option (Answer × Streams)
  | .openNull =>
    some (s.openStreamAnswer (s.owner u) (some .null), s.openStream (s.owner u) (some .null))
  | .openTerminal termno =>
    some (s.openStreamAnswer (s.owner u) (s.serialDevice termno),
      s.openStream (s.owner u) (s.serialDevice termno))
  | .socket port malloc =>
    let r := s.sysSocket (s.owner u) port malloc
    some (.ofFid r.1, r.2)
  | .pipe malloc => (s.sysPipe (s.owner u) malloc).map fun s' => (s.sysPipeAnswer (s.owner u), s')
  | .openInfo info table copied =>
    (s.sysOpenInfo (s.owner u) info table copied).map fun r => (.ofFid r.1, r.2)
  | .accept lsock m => (s.sysAccept u lsock m).map fun s' => (s.sysAcceptAnswer u lsock m, s')
  | .acceptWoken l m => (s.resumeAccept u l m).map fun s' => (s.resumeAcceptAnswer u l m, s')

/-- The states are those of the system. -/
theorem runOpen_state (s : Streams) (u : Nat) (c : OpenCall)
    (hc : ∀ l m, c = .acceptWoken l m → s.pc u = .accepting l true) :
    (s.runOpen u c).map (fun r => r.2) =
      match c with
      | .acceptWoken _ m => s.resume u false m
      | c => s.call u (OpenCall.action u c) := by
  cases c with
  | openNull | openTerminal | socket => rfl
  | pipe | accept =>
    simp only [runOpen, OpenCall.action, call, Option.map_map]
    exact Option.map_id'
  | openInfo =>
    simp only [runOpen, OpenCall.action, call, Option.map_map]
    rfl
  | acceptWoken l m =>
    simp only [runOpen, resume, hc l m rfl, Option.map_map]
    exact Option.map_id'

/-! ## All or nothing -/

/-- The streams of all FCBs that the call took were opened by it, and the fids denote such FCBs. -/
structure AllOpened (s s' : Streams) (p : Nat) (is : List Int) : Prop where
  given : ∀ f ∈ s.freelist, f ∉ s'.freelist →
    (s'.FT f).stream ≠ none ∧ s.opens ≤ s'.opening f
  denoted : ∀ i ∈ is, ∃ f ∈ s.freelist, f ∉ s'.freelist ∧ s'.FIDT p i = some f

/-- The call has succeeded, or has left the files of process `p` as they were. -/
def Settled (s s' : Streams) (p : Nat) : Answer → Prop
  | .fids is => is ≠ [] ∧ s.AllOpened s' p is
  | .error | .asleep => s'.FIDT p = s.FIDT p ∧ s'.freelist.Perm s.freelist

def Settles (s : Streams) (u : Nat) (c : OpenCall) : Prop :=
  ∃ ans s', s.runOpen u c = some (ans, s') ∧ s.Settled s' (s.owner u) ans

/-- `num` fids of process `p` and `num` FCBs are free. -/
def Reservable (t : FileTables) (num p : Nat) : Prop :=
  num ≤ (t.freeFids p).length ∧ num ≤ t.freelist.length

/-- `Accept` finds a request, and its `Socket` does not fail after its reservation. -/
def AcceptSuffices (s : Streams) (p l : Nat) (m : Mallocs) : Prop :=
  (∃ r rs, (s.scb l).reqQueue = some (r :: rs)) ∧
    (m.scb = true ∨ (s.scb l).port < 0 ∨ MAX_PORT < (s.scb l).port ∨
      ¬ Reservable s.toFileTables 1 p)

/-- Nothing fails after the reservation. -/
def Suffices (s : Streams) (u : Nat) : OpenCall → Prop
  | .openNull | .openTerminal _ => True
  | .socket port malloc =>
    malloc = true ∨ port < 0 ∨ MAX_PORT < port ∨ ¬ Reservable s.toFileTables 1 (s.owner u)
  | .pipe malloc => malloc = true ∨ ¬ Reservable s.toFileTables 2 (s.owner u)
  | .openInfo info table copied =>
    (info = true ∧ table = true ∧ copied = true) ∨ ¬ Reservable s.toFileTables 1 (s.owner u)
  | .accept lsock m => ∀ l, denoted s.toFileTables (s.owner u) lsock = some l →
    (s.scb l).type = .listener → s.PortMap (s.scb l).port ≠ none → (s.scb l).reqQueue ≠ some [] →
    s.AcceptSuffices (s.owner u) l m
  | .acceptWoken l m => (s.scb l).refcount ≠ 0 → s.AcceptSuffices (s.owner u) l m

variable {s s' s₁ : Streams} {p num : Nat} {t : FileTables}

theorem reserve_cases (hnd : t.freelist.Nodup) (num p : Nat) :
    (¬ Reservable t num p ∧ ∃ t', t.reserveFCB num p = (none, t') ∧ t'.FIDT = t.FIDT ∧
      t'.freelist.Perm t.freelist) ∨
    (Reservable t num p ∧ ∃ es t', t.reserveFCB num p = (some es, t') ∧
      t.Reserved num p es t') := by
  have hiff : (t.reserveFCB num p).1.isSome ↔ _ := reserveFCB_isSome_iff hnd
  cases hr : t.reserveFCB num p with
  | mk o t' =>
    rw [hr] at hiff
    cases o with
    | none =>
      refine .inl ⟨fun h => by simpa using hiff.mpr h, t', rfl, ?_⟩
      exact reserveFCB_none hnd hr
    | some es => exact .inr ⟨hiff.mp rfl, es, t', rfl, reserved hnd hr⟩

/-- One fid. -/
theorem reserve_one_cases (hnd : t.freelist.Nodup) (p : Nat) :
    (¬ Reservable t 1 p ∧ ∃ t', t.reserveFCB 1 p = (none, t') ∧ t'.FIDT = t.FIDT ∧
      t'.freelist.Perm t.freelist) ∨
    (Reservable t 1 p ∧ ∃ fid f t', t.reserveFCB 1 p = (some [(fid, f)], t') ∧
      t.Reserved 1 p [(fid, f)] t') := by
  rcases reserve_cases hnd 1 p with h | ⟨hable, es, t', hr, h⟩
  · exact .inl h
  · obtain ⟨⟨fid, f⟩, rfl⟩ := List.length_eq_one_iff.mp h.length
    exact .inr ⟨hable, fid, f, t', hr, h⟩

/-- What follows touches no files and opens nothing. -/
theorem Settled.quiet {ans : Answer} (h : s.Settled s₁ p ans) (hq : Quiet s₁ s') :
    s.Settled s' p ans := by
  cases ans with
  | error | asleep =>
    simp only [Settled, hq.files]
    exact h
  | fids is =>
    refine ⟨h.1, fun f hf hn => ?_, fun i hi => ?_⟩
    · rw [hq.files] at hn ⊢
      rw [hq.opening]
      exact h.2.given f hf hn
    · rw [hq.files]
      exact h.2.denoted i hi

/-- Only the files before the call count. -/
theorem settled_congr {ans : Answer} (hfiles : s₁.toFileTables = s.toFileTables)
    (hopens : s₁.opens = s.opens) : s₁.Settled s' p ans ↔ s.Settled s' p ans := by
  cases ans with
  | error | asleep => simp only [Settled, hfiles]
  | fids is =>
    have hopened : s₁.AllOpened s' p is ↔ s.AllOpened s' p is := by
      refine ⟨fun h => ⟨?_, ?_⟩, fun h => ⟨?_, ?_⟩⟩
      · rw [← hfiles, ← hopens]
        exact h.given
      · rw [← hfiles]
        exact h.denoted
      · rw [hfiles, hopens]
        exact h.given
      · rw [hfiles]
        exact h.denoted
    simp only [Settled, hopened]

/-- All FCBs that were reserved have been opened. -/
theorem settled_fids {es : List (Int × Nat)} (hr : s.Reserved num p es t) (hnum : 0 < num)
    (hFIDT : s'.FIDT = t.FIDT) (hfree : s'.freelist = t.freelist)
    (hopen : ∀ f ∈ es.map (·.2), (s'.FT f).stream ≠ none ∧ s.opens ≤ s'.opening f) :
    s.Settled s' p (.fids (es.map (·.1))) := by
  refine ⟨fun hnil => ?_, fun f hf hn => hopen f ?_, fun i hi => ?_⟩
  · have := hr.length
    rw [List.map_eq_nil_iff.mp hnil] at this
    exact absurd hnum (by rw [← this]; exact Nat.lt_irrefl 0)
  · rw [hr.remaining, List.mem_append] at hf
    exact hf.resolve_right (hfree ▸ hn)
  · obtain ⟨e, he, rfl⟩ := List.mem_map.mp hi
    obtain ⟨hin, hout, -⟩ := hr.acquired e.2 (List.mem_map_of_mem he)
    exact ⟨e.2, hin, hfree ▸ hout, hFIDT ▸ hr.entered e he⟩

/-- A fid that is reserved and not given back. -/
theorem not_settled_error {es : List (Int × Nat)} (hr : s.Reserved num p es t) (hnum : 0 < num)
    (hFIDT : s'.FIDT = t.FIDT) : ¬ s.Settled s' p .error := by
  intro h
  obtain ⟨e, he⟩ := List.exists_mem_of_length_pos (hr.length ▸ hnum)
  have hfree := (hr.smallest e.1 (List.mem_map_of_mem he)).1.2.2
  have hset := hr.entered e he
  rw [← hFIDT, h.1, hfree] at hset
  exact absurd hset (by simp)

@[simp] theorem openFCB_opening (f : Nat) (st : Stream) : (s.openFCB f st).opening f = s.opens :=
  Function.update_self ..

@[simp] theorem openFCB_stream (f : Nat) (st : Stream) : ((s.openFCB f st).FT f).stream = some st := by
  rw [openFCB, modifyFCB_FT, if_pos rfl]

/-- The fid that was reserved is opened. -/
theorem settled_openFCB {fid : Int} {f : Nat} {st : Stream} (hr : s.Reserved 1 p [(fid, f)] t)
    (hs : s' = s₁.openFCB f st) (hfiles : s₁.toFileTables = t) (hopens : s₁.opens = s.opens) :
    s.Settled s' p (.fids [fid]) := by
  subst hs hfiles
  refine settled_fids hr Nat.one_pos rfl rfl fun g hg => ?_
  obtain rfl : g = f := by simpa using hg
  rw [openFCB_stream, openFCB_opening, hopens]
  exact ⟨by simp, le_rfl⟩

/-! ## The calls -/

/-- `open_stream` undoes its reservation. -/
theorem settled_openStream (hnd : s.freelist.Nodup) (device : Option Stream) :
    s.Settled (s.openStream p device) p (s.openStreamAnswer p device) := by
  unfold openStream openStreamAnswer
  rcases reserve_one_cases hnd p with ⟨-, t, hr, h⟩ | ⟨-, fid, f, t, hr, h⟩
  · rw [hr]
    exact ⟨congrFun h.1 p, h.2⟩
  · rw [hr]
    cases device with
    | none =>
      -- The assertion of `FCB_unreserve` holds, so this is what it leaves.
      obtain ⟨u, hu, hFIDT, hperm⟩ := h.undone
      rw [unreserveAsserted_eq p _ t (by simp) h.entered] at hu
      obtain rfl := Option.some.inj hu
      exact ⟨congrFun hFIDT p, hperm⟩
    | some st => exact settled_openFCB h rfl rfl rfl

theorem settled_sysSocket_iff (hnd : s.freelist.Nodup) (port : Int) (malloc : Bool) :
    s.Settled (s.sysSocket p port malloc).2 p (.ofFid (s.sysSocket p port malloc).1) ↔
      malloc = true ∨ port < 0 ∨ MAX_PORT < port ∨ ¬ Reservable s.toFileTables 1 p := by
  unfold sysSocket
  split
  · rename_i hport
    exact iff_of_true ⟨rfl, .refl _⟩ (by tauto)
  rename_i hport
  rcases reserve_one_cases hnd p with ⟨hno, t, hr, h⟩ | ⟨hable, fid, f, t, hr, h⟩
  · rw [hr]
    exact iff_of_true ⟨congrFun h.1 p, h.2⟩ (.inr (.inr (.inr hno)))
  · rw [hr]
    cases malloc with
    | true => exact iff_of_true (settled_openFCB h rfl rfl rfl) (.inl rfl)
    | false => exact iff_of_false (not_settled_error h Nat.one_pos rfl) (by tauto)

theorem settles_of_runOpen {u : Nat} {c : OpenCall} {ans : Answer}
    (h : s.runOpen u c = some (ans, s')) : s.Settles u c ↔ s.Settled s' (s.owner u) ans := by
  simp [Settles, h]

theorem settles_pipe_iff {u : Nat} (hnd : s.freelist.Nodup) (malloc : Bool) :
    s.Settles u (.pipe malloc) ↔ s.Suffices u (.pipe malloc) := by
  simp only [Settles, runOpen, Suffices]
  unfold sysPipe sysPipeAnswer
  rcases reserve_cases hnd 2 (s.owner u) with ⟨hno, t, hr, h⟩ | ⟨hable, es, t, hr, h⟩
  · rw [hr]
    exact iff_of_true ⟨_, _, rfl, congrFun h.1 _, h.2⟩ (.inr hno)
  · obtain ⟨⟨i₀, f₀⟩, ⟨i₁, f₁⟩, rfl⟩ := List.length_eq_two.mp h.length
    rw [hr]
    cases malloc with
    | false =>
      refine iff_of_false ?_ (by tauto)
      rintro ⟨ans, s', hs, -⟩
      exact absurd hs (by simp [newPipe])
    | true =>
      refine iff_of_true ⟨_, _, rfl, settled_fids h Nat.two_pos rfl rfl fun g hg => ?_⟩ (.inl rfl)
      have hne : f₀ ≠ f₁ := by
        have := h.distinct
        simpa using this
      simp only [List.map_cons, List.map_nil, List.mem_cons, List.not_mem_nil, or_false] at hg
      rcases hg with rfl | rfl
      · -- The first FCB keeps its stream when the second one is opened.
        simp [openFCB, modifyFCB_FT, hne, setPipe]
      · simp [openFCB, modifyFCB_FT, setPipe]

theorem settles_openInfo_iff {u : Nat} (hnd : s.freelist.Nodup) (info table copied : Bool) :
    s.Settles u (.openInfo info table copied) ↔ s.Suffices u (.openInfo info table copied) := by
  simp only [Settles, runOpen, Suffices]
  unfold sysOpenInfo
  rcases reserve_one_cases hnd (s.owner u) with ⟨hno, t, hr, h⟩ | ⟨hable, fid, f, t, hr, h⟩
  · rw [hr]
    exact iff_of_true ⟨_, _, rfl, congrFun h.1 _, h.2⟩ (.inr hno)
  · rw [hr]
    by_cases hm : info = false ∨ table = false
    · refine iff_of_false ?_ ?_
      · rintro ⟨ans, s', hs, hsettled⟩
        simp only [hm, if_true, Option.map_some, Option.some.injEq, Prod.mk.injEq] at hs
        obtain ⟨rfl, rfl⟩ := hs
        exact not_settled_error h Nat.one_pos rfl hsettled
      · rintro (⟨rfl, rfl, -⟩ | hno)
        · simp at hm
        · exact hno hable
    · obtain ⟨rfl, rfl⟩ : info = true ∧ table = true := by simpa using hm
      cases copied with
      | true => exact iff_of_true ⟨_, _, rfl, settled_openFCB h rfl rfl rfl⟩ (.inl ⟨rfl, rfl, rfl⟩)
      | false =>
        refine iff_of_false ?_ (by simp [hable])
        rintro ⟨ans, s', hs, -⟩
        exact absurd hs (by simp)

/-! ### `Accept` -/

theorem popRequest_port (s : Streams) (l r : Nat) (rs : List Nat) (k : Nat) :
    ((s.popRequest l r rs).scb k).port = (s.scb k).port := by
  have hmodify : ∀ (s : Streams) (j : Nat) (g : SCB → SCB), (∀ b, (g b).port = b.port) →
      ((s.modifySCB j g).scb k).port = (s.scb k).port := by
    intro s j g hg
    simp only [modifySCB, Function.update_apply]
    split
    · rename_i hk
      rw [hg, hk]
    · rfl
  refine (hmodify _ (s.req r).socket (fun b => { b with refcount := 1 }) fun _ => rfl).trans ?_
  have hscb := congrArg Sockets.scb (sockets_access (s.modifySCB l fun b =>
    { b with reqQueue := some rs }) (s.req r).socket)
  exact (congrArg (fun g => (g k).port) hscb).trans
    (hmodify s l (fun b => { b with reqQueue := some rs }) fun _ => rfl)

/-- A `Socket` whose `malloc` fails answers no fid. -/
theorem malloc_of_sysSocket {port fid : Int} {malloc : Bool}
    (h : s.sysSocket p port malloc = (some fid, s')) : malloc = true := by
  cases malloc with
  | true => rfl
  | false =>
    unfold sysSocket at h
    split at h
    · cases h
    · split at h
      · cases h
      · cases h

/-- From its step 1 on. -/
theorem settled_acceptRequest_iff (hnd : s.freelist.Nodup) (l : Nat) (m : Mallocs) :
    (∃ s', s.acceptRequest p l m = some s' ∧ s.Settled s' p (s.acceptRequestAnswer p l m)) ↔
      s.AcceptSuffices p l m := by
  unfold acceptRequest acceptRequestAnswer AcceptSuffices
  rcases hqueue : (s.scb l).reqQueue with _ | _ | ⟨r, rs⟩
  · exact iff_of_false (by simp) (by simp)
  · exact iff_of_false (by simp) (by simp)
  have hq := quiet_popRequest s l r rs
  have hnd₁ : (s.popRequest l r rs).freelist.Nodup := by rwa [hq.files]
  have hiff := settled_sysSocket_iff (p := p) hnd₁ ((s.popRequest l r rs).scb l).port m.scb
  rw [popRequest_port, hq.files] at hiff
  have hfound : (∃ r' rs', some (r :: rs) = some (r' :: rs')) ↔ True := by simp
  rw [hfound, true_and, ← hiff]
  simp only [popRequest_port]
  cases hsock : (s.popRequest l r rs).sysSocket p (s.scb l).port m.scb with
  | mk o s₂ =>
    have hsockets := sockets_sysSocket hsock
    cases o with
    | none =>
      have hsignal := quiet_signalConn s₂ r
      refine ⟨fun ⟨s', hs, h⟩ => ?_,
        fun h => ⟨_, rfl, ((settled_congr hq.files hq.opens).mp h).quiet hsignal⟩⟩
      obtain rfl := Option.some.inj hs
      have hfiles : s₂.toFileTables = (s₂.signalConn r).toFileTables := hsignal.files.symm
      simp only [Answer.ofFid, Settled, hfiles] at h ⊢
      rwa [hq.files]
    | some fid =>
      -- The fid denotes the new socket.
      obtain ⟨-, f, -, hget, hstream⟩ := hsockets
      have hst : (s₂.getFCB p fid).bind (fun f => (s₂.FT f).stream) =
          some (.socket (s.popRequest l r rs).scbs) := by rw [hget, Option.bind_some, hstream]
      have hpeers := quiet_connectPeers s₂ (s.popRequest l r rs).scbs (s₂.req r).socket r m
      simp only [hst, Option.some.injEq, exists_eq_left']
      have hsettled : (s.popRequest l r rs).Settled s₂ p (.ofFid (some fid)) := by
        have := hiff.mpr (.inl (malloc_of_sysSocket hsock))
        rwa [hsock] at this
      have hbefore := (settled_congr hq.files hq.opens).mp hsettled
      exact iff_of_true (hbefore.quiet hpeers) hsettled

/-- `Accept` fails at once, goes to sleep, or goes on. -/
theorem sysAccept_cases (s : Streams) (u : Nat) (lsock : Int) (m : Mallocs) :
    let d := denoted s.toFileTables (s.owner u) lsock
    ((∀ l, d = some l → (s.scb l).type = .listener → s.PortMap (s.scb l).port = none) ∧
      s.sysAcceptAnswer u lsock m = .error ∧
      ∃ s', s.sysAccept u lsock m = some s' ∧ s'.toFileTables = s.toFileTables) ∨
    ∃ l, d = some l ∧ (s.scb l).type = .listener ∧ s.PortMap (s.scb l).port ≠ none ∧
      (((s.scb l).reqQueue = some [] ∧ s.sysAcceptAnswer u lsock m = .asleep ∧
        ∃ s', s.sysAccept u lsock m = some s' ∧ s'.toFileTables = s.toFileTables) ∨
      ((s.scb l).reqQueue ≠ some [] ∧
        s.sysAcceptAnswer u lsock m = (s.access l).acceptRequestAnswer (s.owner u) l m ∧
        s.sysAccept u lsock m = (s.access l).acceptRequest (s.owner u) l m)) := by
  unfold sysAccept sysAcceptAnswer denoted
  simp only
  cases (s.getFCB (s.owner u) lsock).bind fun f => (s.FT f).stream with
  | none => exact .inl ⟨by simp, rfl, s, rfl, rfl⟩
  | some st =>
    cases st with
    | null | serial | reader | writer | info =>
      exact .inl ⟨by simp [Stream.socket?], rfl, s, rfl, rfl⟩
    | socket l =>
      have hn := s.sockets_access l
      have hscb : (s.access l).scb = s.scb := congrArg Sockets.scb hn
      have hport : (s.access l).PortMap = s.PortMap := congrArg Sockets.PortMap hn
      have hfiles := (s.quiet_access l).files
      simp only [Option.bind_some, Stream.socket?, Option.some.injEq, exists_eq_left',
        forall_eq', hscb, hport]
      by_cases hno : (s.scb l).type ≠ .listener ∨ s.PortMap (s.scb l).port = none
      · rw [if_pos hno, if_pos hno]
        exact .inl ⟨fun h => hno.resolve_left (not_not.mpr h), rfl, _, rfl, hfiles⟩
      rw [if_neg hno, if_neg hno]
      obtain ⟨htype, hport⟩ := not_or.mp hno
      refine .inr ⟨not_not.mp htype, hport, ?_⟩
      by_cases hempty : (s.scb l).reqQueue = some []
      · rw [if_pos hempty, if_pos hempty]
        exact .inl ⟨hempty, rfl, _, rfl, hfiles⟩
      · rw [if_neg hempty, if_neg hempty]
        exact .inr ⟨hempty, rfl, rfl⟩

/-- An error leaves the files as they are. -/
theorem settled_of_files {ans : Answer} (h : ∀ is, ans ≠ .fids is)
    (hfiles : s'.toFileTables = s.toFileTables) : s.Settled s' p ans := by
  cases ans with
  | error | asleep =>
    rw [Settled, hfiles]
    exact ⟨rfl, .refl _⟩
  | fids is => exact absurd rfl (h is)

theorem settles_accept_iff {u : Nat} (hnd : s.freelist.Nodup) (lsock : Int) (m : Mallocs) :
    s.Settles u (.accept lsock m) ↔ s.Suffices u (.accept lsock m) := by
  have hmap : s.Settles u (.accept lsock m) ↔ ∃ s', s.sysAccept u lsock m = some s' ∧
      s.Settled s' (s.owner u) (s.sysAcceptAnswer u lsock m) := by
    simp [Settles, runOpen]
  rw [hmap]
  rcases s.sysAccept_cases u lsock m with ⟨hno, hans, s', hs, hfiles⟩ |
    ⟨l, hl, htype, hport, ⟨hempty, hans, s', hs, hfiles⟩ | ⟨hqueue, hans, hs⟩⟩
  · rw [hans]
    exact iff_of_true ⟨s', hs, settled_of_files (by simp) hfiles⟩
      fun l hl htype hport => absurd (hno l hl htype) hport
  · rw [hans]
    refine iff_of_true ⟨s', hs, settled_of_files (by simp) hfiles⟩ fun k hk _ _ hqueue => ?_
    obtain rfl := Option.some.inj (hl.symm.trans hk)
    exact absurd hempty hqueue
  · have hq := s.quiet_access l
    have hscb : (s.access l).scb = s.scb := congrArg Sockets.scb (s.sockets_access l)
    have hnd₁ : (s.access l).freelist.Nodup := by rwa [hq.files]
    have hiff := settled_acceptRequest_iff (p := s.owner u) hnd₁ l m
    simp only [AcceptSuffices, hscb, hq.files] at hiff
    rw [hs, hans, Suffices]
    simp only [settled_congr hq.files hq.opens] at hiff
    rw [hiff]
    refine ⟨fun h k hk _ _ _ => ?_, fun h => h l hl htype hport hqueue⟩
    obtain rfl := Option.some.inj (hl.symm.trans hk)
    exact h

theorem settles_acceptWoken_iff {u : Nat} (hnd : s.freelist.Nodup) (l : Nat) (m : Mallocs) :
    s.Settles u (.acceptWoken l m) ↔ s.Suffices u (.acceptWoken l m) := by
  have hmap : s.Settles u (.acceptWoken l m) ↔ ∃ s', s.resumeAccept u l m = some s' ∧
      s.Settled s' (s.owner u) (s.resumeAcceptAnswer u l m) := by
    simp [Settles, runOpen]
  rw [hmap, Suffices]
  unfold resumeAccept resumeAcceptAnswer
  have hq := s.quiet_access l
  have hscb : ((s.access l).goto u .running).scb = s.scb :=
    congrArg Sockets.scb (s.sockets_access l)
  have hfiles : ((s.access l).goto u .running).toFileTables = s.toFileTables := hq.files
  have howner : ((s.access l).goto u .running).owner = s.owner := hq.owner
  have hopens : ((s.access l).goto u .running).opens = s.opens := hq.opens
  generalize (s.access l).goto u .running = s₁ at hscb hfiles howner hopens ⊢
  simp only [hscb, howner]
  split
  · rename_i hclosed
    exact iff_of_true ⟨s₁, rfl, settled_of_files (by simp) hfiles⟩ fun h => absurd hclosed h
  · rename_i hopen
    have hiff := settled_acceptRequest_iff (p := s.owner u) (s := s₁) (by rwa [hfiles]) l m
    simp only [AcceptSuffices, hscb, hfiles, settled_congr hfiles hopens] at hiff
    rw [hiff]
    exact ⟨fun h _ => h, fun h => h hopen⟩

end Streams

/-- **A call that reserves fids succeeds or leaves no trace**, if and only if nothing fails between
its reservation and its end. -/
theorem opens_settle_iff (s : Streams) (u : Nat) (c : OpenCall) (hnd : s.freelist.Nodup) :
    s.Settles u c ↔ s.Suffices u c := by
  cases c with
  | openNull => exact iff_of_true ⟨_, _, rfl, Streams.settled_openStream hnd _⟩ trivial
  | openTerminal termno => exact iff_of_true ⟨_, _, rfl, Streams.settled_openStream hnd _⟩ trivial
  | socket port malloc =>
    exact (Streams.settles_of_runOpen rfl).trans (Streams.settled_sysSocket_iff hnd port malloc)
  | pipe malloc => exact Streams.settles_pipe_iff hnd malloc
  | openInfo info table copied => exact Streams.settles_openInfo_iff hnd info table copied
  | accept lsock m => exact Streams.settles_accept_iff hnd lsock m
  | acceptWoken l m => exact Streams.settles_acceptWoken_iff hnd l m

/-- A pipe, at boot. -/
theorem pipe_settles_at_boot : (Streams.initial 0).Settles 0 (.pipe true) :=
  (opens_settle_iff (.initial 0) 0 (.pipe true) inv_initializeFiles.nodup).mpr (.inl rfl)

/-- **A `Socket` that finds no memory keeps its fid**, in a kernel that has just booted. -/
theorem not_opens_settle :
    ¬ ∀ (s : Streams) (u : Nat) (c : OpenCall), s.freelist.Nodup → s.Settles u c := by
  intro hall
  have hnd : (Streams.initial 0).freelist.Nodup := inv_initializeFiles.nodup
  obtain ⟨ans, s', hs, h⟩ := hall (.initial 0) 0 (.socket 0 false) hnd
  obtain ⟨rfl, rfl⟩ := Prod.mk.inj (Option.some.inj hs)
  rcases (Streams.settled_sysSocket_iff hnd 0 false).mp h with hm | hport | hport | hno
  · exact absurd hm (by decide)
  · exact absurd hport (by decide)
  · exact absurd hport (by decide)
  · have hfids : 1 ≤ (initializeFiles.freeFids 1).length := by decide
    have hlist : initializeFiles.freelist.length = MAX_FILES := List.length_range'
    exact hno ⟨hfids, by
      change 1 ≤ initializeFiles.freelist.length
      rw [hlist]
      decide⟩

end TinyOS
