import TinyOS.Stream.Basic
import Mathlib.Tactic.Common

/-!
# What the methods of streams leave alone

**No method of a stream touches the file tables**, and none moves a thread: the threads it wakes
stay where they are, and are only made ready. `Quiet s s'` says so of two states, once for all the
functions below the system calls; what a proof needs beyond it, it gets from the function itself.
-/

set_option autoImplicit false

namespace TinyOS

namespace StreamPc

/-- Where a thread stands, whether or not it was made ready. -/
def place : StreamPc → StreamPc
  | .reading f q size _ => .reading f q size false
  | .writing f q buf size _ => .writing f q buf size false
  | .serialReading f size _ => .serialReading f size false
  | .accepting k _ => .accepting k false
  | .connecting r _ => .connecting r .asleep
  | pc => pc

variable {pc pc' : StreamPc}

@[simp] theorem place_wakeReader (q : Nat) : (pc.wakeReader q).place = pc.place := by
  cases pc <;> rfl

@[simp] theorem place_wakeWriter (q : Nat) : (pc.wakeWriter q).place = pc.place := by
  cases pc <;> rfl

@[simp] theorem place_wakeAcceptor (k : Nat) : (pc.wakeAcceptor k).place = pc.place := by
  cases pc <;> rfl

@[simp] theorem place_wakeConnector (r : Nat) : (pc.wakeConnector r).place = pc.place := by
  cases pc with
  | connecting r' w => cases w <;> rfl
  | _ => rfl

@[simp] theorem place_wakeSerial : pc.wakeSerial.place = pc.place := by
  cases pc <;> rfl

/-- The FCB that the thread reads or writes. -/
def fcb : StreamPc → Option Nat
  | .reading f _ _ _ | .writing f _ _ _ _ | .serialReading f _ _ | .returning f => some f
  | _ => none

@[simp] theorem fcb_place : pc.place.fcb = pc.fcb := by cases pc <;> rfl

theorem fcb_eq (h : pc'.place = pc.place) : pc'.fcb = pc.fcb := by
  rw [← fcb_place, h, fcb_place]

/-- The places where nobody sleeps are what they are. -/
theorem eq_of_place {x : StreamPc} (hx : x = .unborn ∨ x = .running ∨ x = .exited ∨
    (∃ f, x = .returning f) ∨ ∃ i, x = .exiting i) : pc.place = x ↔ pc = x := by
  rcases hx with rfl | rfl | rfl | ⟨f, rfl⟩ | ⟨i, rfl⟩ <;> cases pc <;> simp [place]

end StreamPc

namespace Streams

/-- From `s` to `s'`, only pipes, sockets and requests changed, and threads were made ready. -/
structure Quiet (s s' : Streams) : Prop where
  files : s'.toFileTables = s.toFileTables
  place : ∀ u, (s'.pc u).place = (s.pc u).place
  pstate : s'.pstate = s.pstate
  owner : s'.owner = s.owner
  threads : s'.threads = s.threads
  lock : s'.lock = s.lock
  opens : s'.opens = s.opens
  opening : s'.opening = s.opening
  closes : s'.closes = s.closes

variable {s s' s'' : Streams}

@[refl] theorem Quiet.refl (s : Streams) : Quiet s s :=
  ⟨rfl, fun _ => rfl, rfl, rfl, rfl, rfl, rfl, rfl, rfl⟩

theorem Quiet.trans (h : Quiet s s') (h' : Quiet s' s'') : Quiet s s'' :=
  ⟨h'.files.trans h.files, fun u => (h'.place u).trans (h.place u), h'.pstate.trans h.pstate,
    h'.owner.trans h.owner, h'.threads.trans h.threads, h'.lock.trans h.lock,
    h'.opens.trans h.opens, h'.opening.trans h.opening, h'.closes.trans h.closes⟩

theorem Quiet.ite {c : Prop} [Decidable c] (h : Quiet s s') : Quiet s (if c then s' else s) := by
  split
  · exact h
  · rfl

/-- Nothing but objects of the heap. -/
theorem Quiet.of_pc (h : ∀ u, (s'.pc u).place = (s.pc u).place)
    (he : s' = { s with
      pipe := s'.pipe, pipes := s'.pipes, freedPipe := s'.freedPipe, scb := s'.scb
      scbs := s'.scbs, freedSCB := s'.freedSCB, touchedFreed := s'.touchedFreed
      PortMap := s'.PortMap, acceptors := s'.acceptors, req := s'.req, reqs := s'.reqs
      infoIndex := s'.infoIndex, pc := s'.pc, confused := s'.confused
      accepted := s'.accepted }) : Quiet s s' := by
  rw [he]
  exact ⟨rfl, h, rfl, rfl, rfl, rfl, rfl, rfl, rfl⟩

theorem quiet_access (s : Streams) (k : Nat) : Quiet s (s.access k) := by
  unfold access
  split <;> exact .of_pc (fun _ => rfl) rfl

theorem quiet_modifySCB (s : Streams) (k : Nat) (f : SCB → SCB) : Quiet s (s.modifySCB k f) :=
  .of_pc (fun _ => rfl) rfl

theorem quiet_setPipe (s : Streams) (q : Nat) (b : PipeCB) : Quiet s (s.setPipe q b) :=
  .of_pc (fun _ => rfl) rfl

theorem quiet_broadcastHasData (s : Streams) (q : Nat) : Quiet s (s.broadcastHasData q) :=
  .of_pc (fun _ => StreamPc.place_wakeReader q) rfl

theorem quiet_broadcastHasSpace (s : Streams) (q : Nat) : Quiet s (s.broadcastHasSpace q) :=
  .of_pc (fun _ => StreamPc.place_wakeWriter q) rfl

theorem quiet_broadcastReqs (s : Streams) (k : Nat) : Quiet s (s.broadcastReqs k) :=
  .of_pc (fun _ => StreamPc.place_wakeAcceptor k) rfl

theorem quiet_signalConn (s : Streams) (r : Nat) : Quiet s (s.signalConn r) :=
  .of_pc (fun _ => StreamPc.place_wakeConnector r) rfl

theorem quiet_signalReqs (s : Streams) (k : Nat) : Quiet s (s.signalReqs k) := by
  unfold signalReqs
  split
  · rfl
  · refine .of_pc (fun v => ?_) rfl
    simp only [goto, Function.update_apply]
    split
    · rename_i hv
      rw [hv, StreamPc.place_wakeAcceptor]
    · rfl

theorem quiet_newPipe (s : Streams) (malloc : Bool) : Quiet s (s.newPipe malloc).2 := by
  unfold newPipe
  split <;> exact .of_pc (fun _ => rfl) rfl

theorem quiet_writerClose (s : Streams) (q : Nat) : Quiet s (s.writerClose q) := by
  unfold writerClose
  split
  · rfl
  · exact (quiet_setPipe _ _ _).trans (quiet_broadcastHasData _ _)

theorem quiet_readerClose (s : Streams) (q : Nat) : Quiet s (s.readerClose q) := by
  unfold readerClose
  split
  · rfl
  · have h₁ := quiet_setPipe s q { s.pipe q with readerClosed := true }
    have h₂ := (h₁.trans (quiet_broadcastHasSpace _ q)).trans (quiet_writerClose _ q)
    exact h₂.trans (.of_pc (fun _ => rfl) rfl)

theorem quiet_shutRead (s : Streams) (k j : Nat) : Quiet s (s.shutRead k j) := by
  unfold shutRead
  split
  · rfl
  · rename_i q _
    exact ((quiet_readerClose s q).trans (quiet_modifySCB _ k _)).trans
      ((quiet_access _ j).trans (quiet_modifySCB _ j _))

theorem quiet_shutWrite (s : Streams) (k : Nat) : Quiet s (s.shutWrite k) := by
  unfold shutWrite
  split
  · rfl
  · exact (quiet_writerClose s _).trans (quiet_modifySCB _ k _)

theorem quiet_sysShutDown (s : Streams) (p : Nat) (sock : Int) (how : ShutdownMode) :
    Quiet s (s.sysShutDown p sock how) := by
  unfold sysShutDown
  split
  · rename_i k _
    refine (quiet_access s k).trans ?_
    simp only
    split
    · rename_i j _ _
      exact (Quiet.ite (quiet_shutRead _ k j)).trans (.ite (quiet_shutWrite _ k))
    · rfl
  · rfl

theorem quiet_listenerClose (s : Streams) (k : Nat) : Quiet s (s.listenerClose k) := by
  have h := (quiet_modifySCB s k fun b => { b with refcount := 0 }).trans
    (quiet_broadcastReqs _ k)
  exact h.trans (.ite (.of_pc (fun _ => rfl) rfl))

theorem quiet_freeSCB (s : Streams) (k : Nat) : Quiet s (s.freeSCB k) :=
  .of_pc (fun _ => rfl) rfl

theorem quiet_peerClose {p k : Nat} (h : s.peerClose p k = some s') : Quiet s s' := by
  unfold peerClose at h
  simp only at h
  split at h
  · exact absurd h (by simp)
  · cases h
    exact (quiet_sysShutDown s p _ .both).trans ((quiet_access _ _).trans (quiet_modifySCB _ _ _))

theorem quiet_socketClose {p k : Nat} (h : s.socketClose p k = some s') : Quiet s s' := by
  unfold socketClose at h
  simp only at h
  have ha := quiet_access s k
  split at h
  · cases h
    exact ha
  · split at h
    · cases h
      exact ha.trans (quiet_freeSCB _ k)
    · cases h
      exact (ha.trans (quiet_listenerClose _ k)).trans (quiet_freeSCB _ k)
    · obtain ⟨s₁, hs₁, rfl⟩ := Option.map_eq_some_iff.mp h
      exact (ha.trans (quiet_peerClose hs₁)).trans (quiet_freeSCB _ k)

/-- **The method that closes a stream** touches no file table, and moves no thread. -/
theorem quiet_closeStream {p : Nat} {st : Stream} (h : s.closeStream p st = some s') :
    Quiet s s' := by
  cases st with
  | null | serial | info => exact Option.some.inj h ▸ .refl s
  | reader q => exact Option.some.inj h ▸ quiet_readerClose s q
  | writer q => exact Option.some.inj h ▸ quiet_writerClose s q
  | socket k => exact quiet_socketClose h

theorem quiet_popRequest (s : Streams) (l r : Nat) (rs : List Nat) :
    Quiet s (s.popRequest l r rs) := by
  unfold popRequest
  exact (quiet_modifySCB s l _).trans ((quiet_access _ _).trans (quiet_modifySCB _ _ _))

theorem quiet_createPipe (s : Streams) (k j : Nat) (m : Mallocs) :
    Quiet s (s.createPipe k j m) := by
  unfold createPipe
  exact ((quiet_newPipe s _).trans (quiet_newPipe _ _)).trans
    ((quiet_modifySCB _ k _).trans (quiet_modifySCB _ j _))

theorem quiet_connectPeers (s : Streams) (k j r : Nat) (m : Mallocs) :
    Quiet s (s.connectPeers k j r m) := by
  have haccepted : ∀ s : Streams, Quiet s (s.setAccepted r) := fun s => .of_pc (fun _ => rfl) rfl
  exact ((((quiet_modifySCB s k _).trans (quiet_modifySCB _ j _)).trans
    (quiet_createPipe _ k j m)).trans (haccepted _)).trans (quiet_signalConn _ r)

theorem quiet_sysListen (s : Streams) (p : Nat) (sock : Int) : Quiet s (s.sysListen p sock) := by
  unfold sysListen
  split
  · rename_i k _
    refine (quiet_access s k).trans (.ite ?_)
    exact (quiet_modifySCB _ k _).trans (.of_pc (fun _ => rfl) rfl)
  · rfl

/-- `OpenInfo` opens its stream like `open_stream`, or fails after its reservation. -/
theorem sysOpenInfo_cases {p : Nat} {info table copied : Bool} {r : Option Int × Streams}
    (h : s.sysOpenInfo p info table copied = some r) :
    (∃ index, r.2 = { s with infoIndex := index }.openStream p (some .info)) ∨
      (info = false ∨ table = false) ∧ r.2 = { s with toFileTables := (s.reserveFCB 1 p).2 } := by
  unfold sysOpenInfo at h
  unfold openStream
  obtain ⟨t, hr⟩ | ⟨fid, f, t, hr, -⟩ := s.reserveFCB_one_cases p
  · rw [hr] at h
    obtain rfl := Option.some.inj h
    exact .inl ⟨s.infoIndex, by simp only [hr]⟩
  · rw [hr] at h
    simp only at h
    split at h
    · rename_i hm
      obtain rfl := Option.some.inj h
      exact .inr ⟨hm, by simp only [hr]⟩
    · obtain ⟨-, h⟩ := Option.ite_none_right_eq_some.mp h
      obtain rfl := Option.some.inj h
      exact .inl ⟨_, by simp only [hr]; rfl⟩

/-- All that `info_read` changes is an `index`. -/
theorem infoRead_eq (s : Streams) (f size : Nat) :
    ∃ index, s.infoRead f size = { s with infoIndex := index } := by
  unfold infoRead
  split
  · exact ⟨_, rfl⟩
  · exact ⟨s.infoIndex, rfl⟩

/-- `Connect` with another kind of stream fails, or it ends the run. -/
theorem connectOther_eq (s : Streams) (f : Nat) (malloc : Bool) :
    ∃ b, s.connectOther f malloc = { s with confused := b } := by
  unfold connectOther
  split
  · exact ⟨true, rfl⟩
  · exact ⟨s.confused, rfl⟩

theorem quiet_infoRead (s : Streams) (f size : Nat) : Quiet s (s.infoRead f size) := by
  obtain ⟨index, h⟩ := s.infoRead_eq f size
  rw [h]
  exact .of_pc (fun _ => rfl) rfl

theorem quiet_connectOther (s : Streams) (f : Nat) (malloc : Bool) :
    Quiet s (s.connectOther f malloc) := by
  obtain ⟨b, h⟩ := s.connectOther_eq f malloc
  rw [h]
  exact .of_pc (fun _ => rfl) rfl

/-! ## `FCB_decref` -/

/-- What `FCB_decref` does to the files. An FCB without references is closed and released. -/
structure Decref (s s' : Streams) (f : Nat) : Prop where
  FIDT : s'.FIDT = s.FIDT
  refcount : ∀ g, (s'.FT g).refcount =
    if g = f then (s.FT g).refcount - 1 else (s.FT g).refcount
  stream : ∀ g, (s'.FT g).stream = (s.FT g).stream
  freelist : s'.freelist = if (s.FT f).refcount = 1 then s.freelist ++ [f] else s.freelist
  closes : s'.closes = if (s.FT f).refcount = 1 then s.closes ++ [s.opening f] else s.closes
  place : ∀ u, (s'.pc u).place = (s.pc u).place
  pstate : s'.pstate = s.pstate
  owner : s'.owner = s.owner
  threads : s'.threads = s.threads
  lock : s'.lock = s.lock
  opens : s'.opens = s.opens
  opening : s'.opening = s.opening

theorem decref_of {p f : Nat} (h : s.decrefFCB p f = some s') : Decref s s' f := by
  unfold decrefFCB at h
  have hrefcount := s.decrementFCB_refcount f
  have hlast : ((s.decrementFCB f).FT f).refcount = 0 ↔ (s.FT f).refcount = 1 := by
    rw [hrefcount, if_pos rfl]
    omega
  simp only [hlast] at h
  split at h
  · rename_i hone
    split at h
    · exact absurd h (by simp)
    · obtain ⟨s₁, hs₁, rfl⟩ := Option.map_eq_some_iff.mp h
      have hq := quiet_closeStream hs₁
      have hfiles : s₁.toFileTables = s.decrementFCB f := hq.files
      have hFT : s₁.FT = (s.decrementFCB f).FT := by rw [hfiles]
      have hFIDT : s₁.FIDT = s.FIDT := by rw [hfiles]; rfl
      have hfree : s₁.freelist = s.freelist := by rw [hfiles]; rfl
      constructor
      case FIDT => exact hFIDT
      case refcount =>
        intro g
        rw [← hrefcount, ← hFT]
        rfl
      case stream =>
        intro g
        rw [← s.decrementFCB_stream f, ← hFT]
        rfl
      case freelist =>
        rw [if_pos hone]
        exact congrArg (· ++ [f]) hfree
      case closes => rw [if_pos hone, hq.closes, hq.opening]
      case place => exact hq.place
      case pstate => exact hq.pstate
      case owner => exact hq.owner
      case threads => exact hq.threads
      case lock => exact hq.lock
      case opens => exact hq.opens
      case opening => exact hq.opening
  · rename_i hne
    cases h
    exact ⟨rfl, hrefcount, s.decrementFCB_stream f, (if_neg hne).symm, (if_neg hne).symm,
      fun _ => rfl, rfl, rfl, rfl, rfl, rfl, rfl⟩

/-- The reference is not the last one. -/
theorem decrefFCB_of_ne {p f : Nat} (h : s.decrefFCB p f = some s')
    (hmore : (s.FT f).refcount ≠ 1) : s' = { s with toFileTables := s.decrementFCB f } := by
  unfold decrefFCB at h
  simp only [FileTables.decrementFCB_refcount, if_true] at h
  rw [if_neg (by omega)] at h
  exact (Option.some.inj h).symm

/-- To close the stream of an FCB that holds none is a crash. -/
theorem exists_stream_of_decrefFCB {p f : Nat} (h : s.decrefFCB p f = some s')
    (hlast : (s.FT f).refcount = 1) : ∃ st, (s.FT f).stream = some st := by
  cases hst : (s.FT f).stream with
  | none =>
    unfold decrefFCB at h
    simp [FileTables.decrementFCB_refcount, hlast, hst] at h
  | some st => exact ⟨st, rfl⟩

/-! ## The steps -/

/-- What a step is. -/
theorem perform_cases {a : StreamAction} (hs : s.perform a = some s') :
    (∃ p, a = .reap p ∧ s.pstate p = .zombie ∧
      s' = { s with pstate := Function.update s.pstate p .free }) ∨
    (∃ u data m, a = .resume u data m ∧ s.lock = none ∧ s.resume u data m = some s') ∨
    (∃ u, a = .proceed u ∧ s.lock = some u ∧ s.proceed u = some s') ∨
    (a = .rxReady ∧ s' = { s with pc := fun u => (s.pc u).wakeSerial }) ∨
    (∃ u r, a = .timeout u ∧ s.pc u = .connecting r .asleep ∧
      s' = s.goto u (.connecting r .timedOut)) ∨
    (∃ u, caller a = some u ∧ s.lock = none ∧ s.pc u = .running ∧ s.call u a = some s') := by
  unfold perform at hs
  obtain ⟨-, hs⟩ := Option.ite_none_left_eq_some.mp hs
  split at hs
  · rename_i p _
    obtain ⟨hp, hs⟩ := Option.ite_none_right_eq_some.mp hs
    exact .inl ⟨p, rfl, hp, (Option.some.inj hs).symm⟩
  · rename_i u data m _
    obtain ⟨hl, hs⟩ := Option.ite_none_right_eq_some.mp hs
    exact .inr (.inl ⟨u, data, m, rfl, hl, hs⟩)
  · rename_i u _
    obtain ⟨hl, hs⟩ := Option.ite_none_right_eq_some.mp hs
    exact .inr (.inr (.inl ⟨u, rfl, hl, hs⟩))
  · exact .inr (.inr (.inr (.inl ⟨rfl, (Option.some.inj hs).symm⟩)))
  · rename_i u _
    split at hs
    · rename_i r hu
      exact .inr (.inr (.inr (.inr (.inl ⟨u, r, rfl, hu, (Option.some.inj hs).symm⟩))))
    · exact absurd hs (by simp)
  · split at hs
    · exact absurd hs (by simp)
    · rename_i u ha
      obtain ⟨⟨hl, hu⟩, hs⟩ := Option.ite_none_right_eq_some.mp hs
      exact .inr (.inr (.inr (.inr (.inr ⟨u, ha, hl, hu, hs⟩))))

/-- A system call. -/
theorem perform_call {a : StreamAction} {u : Nat} (ha : caller a = some u)
    (hs : s.perform a = some s') : s.call u a = some s' := by
  rcases perform_cases hs with ⟨p, rfl, -⟩ | ⟨v, data, m, rfl, -⟩ | ⟨v, rfl, -⟩ | ⟨rfl, -⟩ |
    ⟨v, r, rfl, -⟩ | ⟨v, hv, -, -, hs⟩
  case inr.inr.inr.inr.inr =>
    obtain rfl : v = u := Option.some.inj (hv.symm.trans ha)
    exact hs
  all_goals cases ha

/-- A thread that goes on. -/
theorem perform_resume {u : Nat} {data : Bool} {m : Mallocs}
    (hs : s.perform (.resume u data m) = some s') : s.resume u data m = some s' := by
  rcases perform_cases hs with ⟨p, ha, -⟩ | ⟨v, d, n, ha, -, hs⟩ | ⟨v, ha, -⟩ | ⟨ha, -⟩ |
    ⟨v, r, ha, -⟩ | ⟨v, ha, -⟩
  case inr.inl =>
    cases ha
    exact hs
  all_goals cases ha

end Streams

end TinyOS
