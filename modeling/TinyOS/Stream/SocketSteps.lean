import TinyOS.Stream.Sockets

/-!
# The steps of the sockets

**A step of the kernel is at most one step of its sockets** (`socketStep`), and most steps are none.

A step says where it comes from: which call it was, which tests the call has passed, and which
socket a fid denoted. What a proof needs of a file table is in there, so that the invariants of the
sockets are proved without one.
-/

set_option autoImplicit false

namespace TinyOS

open Transition

namespace Streams

/-- An `Accept` that goes on to pop a request: its thread, the listener, and the outcomes of its
`malloc`s. -/
def pops (s : Streams) : StreamAction → Option (Nat × Nat × Mallocs)
  | .accept u lsock m =>
    match denoted s.toFileTables (s.owner u) lsock with
    | some l =>
      if (s.scb l).type = .listener ∧ s.PortMap (s.scb l).port ≠ none ∧
        (s.scb l).reqQueue ≠ some [] then some (u, l, m) else none
    | none => none
  | .resume u _ m =>
    match s.pc u with
    | .accepting l true => if (s.scb l).refcount = 0 then none else some (u, l, m)
    | _ => none
  | _ => none

/-- It gets a fid for the server's socket. -/
def serves (s : Streams) (u l : Nat) (m : Mallocs) : Prop :=
  (s.sysSocket (s.owner u) (s.scb l).port m.scb).1 ≠ none

instance (s : Streams) (u l : Nat) (m : Mallocs) : Decidable (s.serves u l m) :=
  inferInstanceAs (Decidable (_ ≠ _))

/-- The request that it then answers with that fid. -/
def served (s : Streams) (a : StreamAction) : Option Nat :=
  match s.pops a with
  | some (u, l, m) => if s.serves u l m then (s.scb l).queue.head? else none
  | none => none

theorem mem_served {s : Streams} {a : StreamAction} {u l r : Nat} {m : Mallocs} {rs : List Nat}
    (ha : s.pops a = some (u, l, m)) (hq : (s.scb l).reqQueue = some (r :: rs))
    (hs : s.serves u l m) : r ∈ s.served a := by
  rw [served, ha]
  simp [hs, SCB.queue, hq]

/-- The thread that may drop a reference to a stream. -/
def closer : StreamAction → Option Nat
  | .close u _ | .dup2 u _ _ | .proceed u => some u
  | _ => none

/-- The socket that the `fid` of the SCB `k` denotes in the process that drops the last reference to
`k`. `Close` clears its entry first; the other calls leave it in the table. -/
def found (s : Streams) (a : StreamAction) (k : Nat) : Option Nat :=
  match a with
  | .close u fd =>
    if (s.scb k).fid = fd then none else denoted s.toFileTables (s.owner u) (s.scb k).fid
  | .dup2 u _ _ | .proceed u => denoted s.toFileTables (s.owner u) (s.scb k).fid
  | _ => none

/-- What the action `a` may make of the sockets of `s`. -/
inductive SocketStep (s : Streams) (a : StreamAction) : Sockets → Prop where
  | quiet : SocketStep s a s.sockets
  | forget (fs : List Nat) : SocketStep s a (s.sockets.forget fs)
  | pipe (fs : List Nat) : SocketStep s a ((s.sockets.newPipe true).2.forget fs)
  | create (f : Nat) (port fid : Int) : 0 ≤ port → SocketStep s a (s.sockets.create f port fid)
  | listen {u k : Nat} {sock : Int} : a = .listen u sock →
      denoted s.toFileTables (s.owner u) sock = some k →
      (s.scb k).port ≠ 0 → s.PortMap (s.scb k).port = none → (s.scb k).refcount = 0 →
      SocketStep s a (s.sockets.listen k)
  | sleep {u l : Nat} {sock : Int} : s.pc u = .running →
      denoted s.toFileTables (s.owner u) sock = some l → (s.scb l).type = .listener →
      (s.scb l).reqQueue = some [] → SocketStep s a (s.sockets.sleep u l)
  | refuse {u l r : Nat} {m : Mallocs} {rs : List Nat} : s.pops a = some (u, l, m) →
      (s.pc u = .running ∨ s.pc u = .accepting l true) →
      (s.scb l).reqQueue = some (r :: rs) → ¬ s.serves u l m →
      SocketStep s a (((s.sockets.goto u .busy).popRequest l r rs).signalConn r)
  | serve {u l r : Nat} {m : Mallocs} {rs : List Nat} (f : Nat) (fid : Int) :
      s.pops a = some (u, l, m) → (s.pc u = .running ∨ s.pc u = .accepting l true) →
      (s.scb l).reqQueue = some (r :: rs) → s.serves u l m →
      SocketStep s a ((((s.sockets.goto u .busy).popRequest l r rs).create f (s.scb l).port
        fid).connectPeers s.scbs (s.req r).socket r m)
  | leave {u l : Nat} : s.pc u = .accepting l true → (s.scb l).refcount = 0 →
      SocketStep s a (s.sockets.goto u .busy)
  | request {u k l : Nat} {sock port : Int} {malloc : Bool} : a = .connect u sock port malloc →
      s.pc u = .running → s.PortMap port = some l → (s.scb l).type = .listener →
      denoted s.toFileTables (s.owner u) sock = some k → (s.scb k).type = .unbound →
      SocketStep s a (s.sockets.request u k l)
  | answer {u r : Nat} {w : TimedWait} : s.pc u = .connecting r w → w ≠ .asleep →
      SocketStep s a (s.sockets.answer u r w)
  | timeout {u r : Nat} : a = .timeout u → s.pc u = .connecting r .asleep →
      SocketStep s a (s.sockets.goto u (.connecting r .timedOut))
  | shut {u : Nat} {sock : Int} {how : ShutdownMode} : a = .shutDown u sock how →
      SocketStep s a (s.sockets.shutDown how (denoted s.toFileTables (s.owner u) sock))
  | close {u f k : Nat} {n : Sockets} : closer a = some u → (s.FT f).refcount = 1 →
      (s.FT f).stream = some (.socket k) → (s.scb k).refcount ≤ 1 →
      s.sockets.close (s.found a k) k = some n → SocketStep s a n
  | spawn : SocketStep s a s.sockets.spawn

variable {s s' : Streams} {a : StreamAction}

/-- What an `Accept` makes of the sockets from its step 1 on. -/
def Takes (s : Streams) (u l : Nat) (m : Mallocs) (n : Sockets) : Prop :=
  ∃ r rs, (s.scb l).reqQueue = some (r :: rs) ∧
    (¬ s.serves u l m ∧ n = ((s.sockets.goto u .busy).popRequest l r rs).signalConn r ∨
      s.serves u l m ∧ ∃ f fid, n = (((s.sockets.goto u .busy).popRequest l r rs).create f
        (s.scb l).port fid).connectPeers s.scbs (s.req r).socket r m)

theorem takes_acceptRequest {p u l : Nat} {m : Mallocs} {s₁ : Streams}
    (hs : s₁.sockets = s.sockets.goto u .busy) (hfiles : s₁.toFileTables = s.toFileTables)
    (hp : s.owner u = p) (h : s₁.acceptRequest p l m = some s') : s.Takes u l m s'.sockets := by
  have hscb : s₁.scb = s.scb := congrArg Sockets.scb hs
  have hscbs : s₁.scbs = s.scbs := congrArg Sockets.scbs hs
  have hreq : s₁.req = s.req := congrArg Sockets.req hs
  obtain ⟨r, rs, hq, hcase⟩ := sockets_acceptRequest h
  rw [hscb] at hq
  rw [sysSocket_fst hfiles, hscb, hscbs, hreq, hs, ← hp] at hcase
  rcases hcase with ⟨hnone, hs'⟩ | ⟨hsome, f, fid, hs'⟩
  · exact ⟨r, rs, hq, .inl ⟨not_not.mpr hnone, hs'⟩⟩
  · exact ⟨r, rs, hq, .inr ⟨hsome, f, fid, hs'⟩⟩

/-- `Connect` makes a request, or it fails at once and the sockets are as they were. -/
theorem sockets_sysConnect {u : Nat} {sock port : Int} {malloc : Bool}
    (h : s.sysConnect u sock port malloc = some s') : s'.sockets = s.sockets ∨
      ∃ k l, s.PortMap port = some l ∧ (s.scb l).type = .listener ∧
        denoted s.toFileTables (s.owner u) sock = some k ∧ (s.scb k).type = .unbound ∧
        s'.sockets = s.sockets.request u k l := by
  unfold sysConnect at h
  split at h
  · cases h
    exact .inl rfl
  split at h
  · cases h
    exact .inl rfl
  rename_i l hport
  have hacc := s.sockets_access l
  have hscb : ∀ j, (s.access l).scb j = s.scb j := congrFun (congrArg Sockets.scb hacc)
  have hFCB : ∀ p i, (s.access l).getFCB p i = s.getFCB p i := by simp
  have hFT : ∀ f, (s.access l).FT f = s.FT f := by simp
  have howner : (s.access l).owner u = s.owner u := congrFun (quiet_access s l).owner u
  simp only [hscb, hFCB, hFT, howner] at h
  split at h
  · cases h
    exact .inl hacc
  rename_i htype
  split at h
  · cases h
    exact .inl hacc
  rename_i f hf
  split at h
  · exact absurd h (by simp)
  · exact absurd h (by simp)
  case h_7 k hk =>
    have hacc₂ := ((s.access l).sockets_access k).trans hacc
    have hscb₂ : ∀ j, ((s.access l).access k).scb j = s.scb j :=
      congrFun (congrArg Sockets.scb hacc₂)
    simp only [hscb₂] at h
    split at h
    · cases h
      exact .inl hacc₂
    · rename_i hc
      obtain ⟨hunbound, -⟩ := not_or.mp hc
      cases h
      refine .inr ⟨k, l, hport, not_not.mp htype, ?_, not_not.mp hunbound, ?_⟩
      · rw [denoted, hf, Option.bind_some, hk]
        rfl
      · rw [sockets_goto, sockets_signalReqs, sockets_modifySCB]
        rw [Sockets.request, ← hacc₂]
        rfl
  -- Another kind of stream.
  all_goals
    cases h
    obtain ⟨b, hb⟩ := (s.access l).connectOther_eq f malloc
    exact .inl ((congrArg sockets hb).trans hacc)

theorem sockets_resumeConnect (s : Streams) (u r : Nat) (w : TimedWait) :
    (s.resumeConnect u r w).sockets = s.sockets.answer u r w := by
  have hgoto := s.sockets_goto u .running
  unfold Streams.resumeConnect Sockets.answer
  simp only
  have hreq : ((s.goto u .running).req r).accepted = ((s.sockets.goto u .busy).req r).accepted :=
    rfl
  rw [hreq, show SocketPc.busy = StreamPc.running.socketPc from rfl, ← hgoto]
  split <;> rfl

namespace SocketStep

theorem of_eq (h : s'.sockets = s.sockets) : SocketStep s a s'.sockets := h ▸ .quiet

theorem sysListen {u : Nat} {sock : Int} :
    SocketStep s (.listen u sock) (s.sysListen (s.owner u) sock).sockets := by
  unfold Streams.sysListen
  split
  · rename_i k hk
    have hscb : (s.access k).scb = s.scb := congrArg Sockets.scb (s.sockets_access k)
    have hport : (s.access k).PortMap = s.PortMap := congrArg Sockets.PortMap (s.sockets_access k)
    simp only [hscb, hport]
    split
    · rename_i hc
      have hl := SocketStep.listen (a := .listen u sock) rfl (by rw [denoted, hk]; rfl) hc.1 hc.2.1
        hc.2.2
      rw [← s.sockets_access k] at hl
      have hport' : ((s.access k).sockets.scb k).port = (s.scb k).port := by
        rw [s.sockets_access]
        rfl
      rw [Sockets.listen, hport'] at hl
      exact hl
    · exact of_eq (s.sockets_access k)
  · exact .quiet

theorem of_takes {u l : Nat} {m : Mallocs} {n : Sockets} (ha : s.pops a = some (u, l, m))
    (hu : s.pc u = .running ∨ s.pc u = .accepting l true) (h : s.Takes u l m n) :
    SocketStep s a n := by
  obtain ⟨r, rs, hq, ⟨hnone, rfl⟩ | ⟨hsome, f, fid, rfl⟩⟩ := h
  · exact .refuse ha hu hq hnone
  · exact .serve f fid ha hu hq hsome

theorem sysAccept {u : Nat} {lsock : Int} {m : Mallocs} (hu : s.pc u = .running)
    (h : s.sysAccept u lsock m = some s') :
    s.pops (.accept u lsock m) = none ∧ SocketStep s (.accept u lsock m) s'.sockets ∨
      ∃ l, s.pops (.accept u lsock m) = some (u, l, m) ∧ s.Takes u l m s'.sockets := by
  have hstay : s.sockets.goto u .busy = s.sockets := by
    have hgoto := s.sockets_goto u .running
    rw [show StreamPc.running.socketPc = .busy from rfl] at hgoto
    rw [← hgoto]
    exact s.sockets_goto_busy (by rw [hu]; rfl) rfl
  unfold Streams.sysAccept at h
  simp only at h
  split at h
  case h_2 hl =>
    cases h
    refine .inl ⟨?_, .quiet⟩
    have hdenoted : denoted s.toFileTables (s.owner u) lsock = none := by
      unfold denoted
      cases hst : (s.getFCB (s.owner u) lsock).bind fun f => (s.FT f).stream with
      | none => rfl
      | some st =>
        cases st with
        | socket l => exact absurd hst (hl l)
        | _ => rfl
    rw [pops, hdenoted]
  rename_i l hl
  have hacc := s.sockets_access l
  have hscb : (s.access l).scb = s.scb := congrArg Sockets.scb hacc
  have hport : (s.access l).PortMap = s.PortMap := congrArg Sockets.PortMap hacc
  have hdenoted : denoted s.toFileTables (s.owner u) lsock = some l := by rw [denoted, hl]; rfl
  simp only [hscb, hport] at h
  split at h
  · rename_i hc
    cases h
    refine .inl ⟨?_, of_eq hacc⟩
    rw [pops, hdenoted]
    exact if_neg fun hpop => hc.elim (· hpop.1) hpop.2.1
  rename_i hc
  obtain ⟨htype, hentry⟩ := not_or.mp hc
  split at h
  · rename_i hempty
    cases h
    have hgoto := (s.access l).sockets_goto u (.accepting l false)
    rw [hacc] at hgoto
    have hacceptors : (s.access l).acceptors = s.acceptors := congrArg Sockets.acceptors hacc
    have hsleep := SocketStep.sleep (a := .accept u lsock m) hu hdenoted (not_not.mp htype) hempty
    rw [Sockets.sleep,
      show SocketPc.accepting l false = StreamPc.socketPc (.accepting l false) from rfl,
      ← hgoto] at hsleep
    refine .inl ⟨?_, ?_⟩
    · rw [pops, hdenoted]
      exact if_neg fun hpop => hpop.2.2 hempty
    · rw [hacceptors]
      exact hsleep
  · rename_i hne
    refine .inr ⟨l, ?_, ?_⟩
    · rw [pops, hdenoted]
      exact if_pos ⟨not_not.mp htype, hentry, hne⟩
    · exact takes_acceptRequest (hacc.trans hstay.symm)
        (access_toFileTables s l) rfl h

theorem resumeAccept {u l : Nat} (data : Bool) {m : Mallocs} (hu : s.pc u = .accepting l true)
    (h : s.resumeAccept u l m = some s') :
    s.pops (.resume u data m) = none ∧ SocketStep s (.resume u data m) s'.sockets ∨
      s.pops (.resume u data m) = some (u, l, m) ∧ s.Takes u l m s'.sockets := by
  have hacc := s.sockets_access l
  have hscb : (s.access l).scb = s.scb := congrArg Sockets.scb hacc
  have howner : (s.access l).owner = s.owner := (quiet_access s l).owner
  have hs : ((s.access l).goto u .running).sockets = s.sockets.goto u .busy := by
    rw [sockets_goto, hacc]
    rfl
  have hfiles := access_toFileTables s l
  unfold Streams.resumeAccept at h
  simp only at h
  change (if ((s.access l).scb l).refcount = 0 then _ else _) = _ at h
  rw [hscb] at h
  split at h
  · rename_i hz
    cases h
    refine .inl ⟨?_, ?_⟩
    · rw [pops, hu]
      exact if_pos hz
    · rw [hs]
      exact .leave hu hz
  · rename_i hz
    refine .inr ⟨?_, takes_acceptRequest hs hfiles (p := (s.access l).owner u) (by rw [howner]) h⟩
    rw [pops, hu]
    exact if_neg hz

theorem sysConnect {u : Nat} {sock port : Int} {malloc : Bool} (hu : s.pc u = .running)
    (h : s.sysConnect u sock port malloc = some s') :
    SocketStep s (.connect u sock port malloc) s'.sockets := by
  rcases sockets_sysConnect h with hsame | ⟨k, l, hport, hl, hk, hunbound, hs'⟩
  · exact of_eq hsame
  · rw [hs']
    exact .request rfl hu hport hl hk hunbound

theorem resumeConnect {u r : Nat} {w : TimedWait} (hu : s.pc u = .connecting r w)
    (hw : w ≠ .asleep) : SocketStep s a (s.resumeConnect u r w).sockets := by
  rw [sockets_resumeConnect]
  exact .answer hu hw

theorem decrefFCB {s₁ : Streams} {u p f : Nat} (ha : closer a = some u)
    (hs : s₁.sockets = s.sockets) (hFT : s₁.FT = s.FT)
    (hfound : ∀ k, denoted s₁.toFileTables p (s.scb k).fid = s.found a k)
    (h : s₁.decrefFCB p f = some s') : SocketStep s a s'.sockets := by
  have hscb : s₁.scb = s.scb := congrArg Sockets.scb hs
  rcases sockets_decrefFCB h with ⟨hsame, -⟩ | ⟨k, hlast, hst, hle, hclose⟩
  · exact of_eq (hsame.trans hs)
  · rw [hs, hscb, hfound] at hclose
    rw [hFT] at hlast hst
    rw [hscb] at hle
    exact .close ha hlast hst hle hclose

/-- An entry that is cleared denotes nothing. -/
theorem denoted_setEntry (t : FileTables) (p : Nat) (fid i : Int) :
    denoted (t.setEntry p fid none) p i = if i = fid then none else denoted t p i := by
  simp only [denoted, FileTables.getFCB, FileTables.setEntry_FT, FileTables.setEntry_FIDT]
  by_cases hi : i = fid
  · subst hi
    rw [if_pos rfl]
    split <;> simp
  · simp [hi]

theorem decrefEntry {u p : Nat} {o : Option Nat} (ha : closer a = some u)
    (hfound : ∀ k, denoted s.toFileTables p (s.scb k).fid = s.found a k)
    (h : s.decrefEntry p o = some s') : SocketStep s a s'.sockets := by
  cases o with
  | none => exact of_eq (Option.some.inj h ▸ rfl)
  | some f => exact decrefFCB ha rfl rfl hfound h

theorem sysExec {p q : Nat} {call : Bool} : SocketStep s a (s.sysExec p q call).sockets := by
  have hfiles := sockets_files (s := { s with pstate := Function.update s.pstate q .alive })
    (s.inherit_stream p q FileTables.fids)
  unfold Streams.sysExec
  simp only
  split
  · rw [sockets_spawnThread, hfiles]
    exact .spawn
  · exact of_eq hfiles

end SocketStep

variable {s s' : Streams} {a : StreamAction}

theorem socketStep_call {u : Nat} (ha : caller a = some u) (hu : s.pc u = .running)
    (hs : s.call u a = some s') : SocketStep s a s'.sockets := by
  have hopen : ∀ (index : Nat → Nat) (p : Nat) (device : Option Stream),
      (∀ st, device = some st → st.socket? = none) →
      SocketStep s a ({ s with infoIndex := index }.openStream p device).sockets := by
    intro index p device hdevice
    rcases sockets_openStream (s := { s with infoIndex := index }) p hdevice with h | ⟨f, h⟩
    · exact .of_eq h
    · rw [h]
      exact .forget [f]
  cases a with
  | openNull v =>
    cases hs
    exact hopen s.infoIndex _ _ (by simp [Stream.socket?])
  | openTerminal v termno =>
    cases hs
    refine hopen s.infoIndex _ _ fun st hst => ?_
    split at hst <;> cases hst
    rfl
  | pipe v malloc =>
    rcases sockets_sysPipe hs with h | ⟨f₀, f₁, h⟩
    · exact .of_eq h
    · rw [h]
      exact .pipe _
  | socket v port malloc =>
    cases hs
    cases hsock : s.sysSocket (s.owner u) port malloc with
    | mk o s₁ =>
      have hs₁ := sockets_sysSocket hsock
      cases o with
      | none => exact .of_eq hs₁
      | some fid =>
        obtain ⟨hport, f, hs₁, -⟩ := hs₁
        rw [hs₁]
        exact .create f port fid hport
  | openInfo v info table copied =>
    obtain ⟨r, hr, rfl⟩ := Option.map_eq_some_iff.mp hs
    rcases sysOpenInfo_cases hr with ⟨index, h⟩ | ⟨-, h⟩
    · rw [h]
      exact hopen index _ _ (by simp [Stream.socket?])
    · rw [h]
      exact .of_eq (sockets_files (s.reserveFCB_stream 1 _))
  | listen v sock =>
    obtain rfl := Option.some.inj ha
    cases hs
    exact .sysListen
  | accept v lsock m =>
    obtain rfl := Option.some.inj ha
    rcases SocketStep.sysAccept hu hs with ⟨-, h⟩ | ⟨l, hp, h⟩
    · exact h
    · exact .of_takes hp (.inl hu) h
  | connect v sock port malloc =>
    obtain rfl := Option.some.inj ha
    exact .sysConnect hu hs
  | shutDown v sock how =>
    obtain rfl := Option.some.inj ha
    cases hs
    rw [sockets_sysShutDown]
    exact .shut rfl
  | read v fd size data => exact .of_eq (sockets_sysRead hu hs)
  | write v fd buf size => exact .of_eq (sockets_sysWrite hu hs)
  | close v fd =>
    obtain rfl := Option.some.inj ha
    simp only [call, sysClose] at hs
    split at hs
    · cases hs
      exact .quiet
    · refine .decrefFCB rfl (by rfl) (by rfl) (fun k => ?_) hs
      exact SocketStep.denoted_setEntry ..
  | dup2 v oldfd newfd =>
    obtain rfl := Option.some.inj ha
    simp only [call, sysDup2] at hs
    split at hs
    · cases hs
      exact .quiet
    split at hs
    · cases hs
      exact .quiet
    rename_i f hf
    split at hs
    · cases hs
      exact .quiet
    obtain ⟨s₁, hs₁, rfl⟩ := Option.map_eq_some_iff.mp hs
    have hfiles := sockets_files (s := s₁)
      (t := (s₁.increfFCB f).setEntry (s.owner v) newfd (some f)) (s₁.increfFCB_stream f)
    rw [hfiles]
    exact .decrefEntry rfl (fun _ => rfl) hs₁
  | exec v q call =>
    obtain ⟨hq, hs⟩ := Option.ite_none_right_eq_some.mp hs
    cases hs
    exact .sysExec
  | createThread v =>
    cases hs
    rw [sockets_spawnThread]
    exact .spawn
  | exit v =>
    cases hs
    exact .of_eq (@sockets_goto_busy s u (.exiting 0) (by rw [hu]; rfl) rfl)
  | reap | resume | proceed | rxReady | timeout => exact absurd ha (by simp [caller])

theorem place_decrefEntry {p : Nat} {o : Option Nat} (hs : s.decrefEntry p o = some s') (u : Nat) :
    (s'.pc u).place = (s.pc u).place := by
  cases o with
  | none => rw [← Option.some.inj hs]
  | some f => exact (decref_of hs).place u

/-- **A step of the kernel is at most one step of its sockets.** -/
theorem socketStep (hs : s.perform a = some s') : SocketStep s a s'.sockets := by
  rcases perform_cases hs with ⟨p, rfl, hp, rfl⟩ | ⟨u, data, m, rfl, hl, hs⟩ |
    ⟨u, rfl, hl, hs⟩ | ⟨rfl, rfl⟩ | ⟨u, r, rfl, hu, rfl⟩ | ⟨u, ha, hl, hu, hs⟩
  · exact .quiet
  · unfold Streams.resume at hs
    split at hs
    · rename_i f q size hu
      cases hs
      exact .of_eq (s.sockets_pipeReadStretch (by rw [hu]; rfl) ..)
    · rename_i f q buf size hu
      cases hs
      exact .of_eq (s.sockets_endWrite (by rw [hu]; rfl) ..)
    · rename_i f size hu
      cases hs
      exact .of_eq (s.sockets_serialReadStretch (by rw [hu]; rfl) ..)
    · rename_i l hu
      rcases SocketStep.resumeAccept data hu hs with ⟨-, h⟩ | ⟨hp, h⟩
      · exact h
      · exact .of_takes hp (.inr hu) h
    · rename_i r hu
      cases hs
      exact .resumeConnect hu (by simp)
    · rename_i r hu
      cases hs
      exact .resumeConnect hu (by simp)
    · exact absurd hs (by simp)
  · unfold Streams.proceed at hs
    split at hs
    · rename_i f hu
      have hback : ({ s.goto u .running with lock := none } : Streams).sockets = s.sockets :=
        @sockets_goto_busy s u .running (by rw [hu]; rfl) rfl
      exact .decrefFCB rfl hback rfl (fun _ => rfl) hs
    · rename_i i hu
      split at hs
      · obtain ⟨s₁, hs₁, rfl⟩ := Option.map_eq_some_iff.mp hs
        obtain ⟨s₂, hs₂, rfl⟩ := Option.map_eq_some_iff.mp hs₁
        have hu₂ : (s₂.pc u).socketPc = .busy := by
          have hplace := place_decrefEntry hs₂ u
          rw [hu, show StreamPc.place (.exiting i) = .exiting i from rfl,
            StreamPc.eq_of_place (.inr (.inr (.inr (.inr ⟨i, rfl⟩))))] at hplace
          rw [hplace]
          rfl
        have hgoto : (({ s₂ with
            toFileTables := s₂.setEntry (s.owner u) i none } : Streams).goto u
              (.exiting (i + 1))).sockets = s₂.sockets := sockets_goto_busy _ hu₂ rfl
        rw [hgoto]
        exact .decrefEntry (o := s.FIDT (s.owner u) i) rfl (fun _ => rfl) hs₂
      · cases hs
        exact .of_eq (@sockets_goto_busy s u .exited (by rw [hu]; rfl) rfl)
    · exact absurd hs (by simp)
  · refine .of_eq ?_
    have hpc : (fun u => ((s.pc u).wakeSerial).socketPc) = fun u => (s.pc u).socketPc := by
      funext u
      cases s.pc u <;> rfl
    simp only [sockets, hpc]
  · rw [sockets_goto]
    exact .timeout rfl hu
  · exact socketStep_call ha hu hs

/-- An `Accept` that goes on to pop a request pops one. -/
theorem takes_of_pops {u l : Nat} {m : Mallocs} (ha : s.pops a = some (u, l, m))
    (hs : s.perform a = some s') :
    (s.pc u = .running ∨ s.pc u = .accepting l true) ∧ s.Takes u l m s'.sockets := by
  rcases perform_cases hs with ⟨p, rfl, -, -⟩ | ⟨v, data, m', rfl, -, hs⟩ | ⟨v, rfl, -, -⟩ |
    ⟨rfl, -⟩ | ⟨v, r, rfl, -, -⟩ | ⟨v, hv, -, hu, hs⟩
  · simp [pops] at ha
  · have hpc : s.pc v = .accepting l true := by
      simp only [pops] at ha
      split at ha
      · rename_i l' hl'
        obtain ⟨-, ha⟩ := Option.ite_none_left_eq_some.mp ha
        cases ha
        exact hl'
      · exact absurd ha (by simp)
    simp only [Streams.resume, hpc] at hs
    rcases SocketStep.resumeAccept data hpc hs with ⟨hp, -⟩ | ⟨hp, h⟩
    · exact absurd (hp.symm.trans ha) (by simp)
    · cases hp.symm.trans ha
      exact ⟨.inr hpc, h⟩
  · simp [pops] at ha
  · simp [pops] at ha
  · simp [pops] at ha
  · cases a with
    | accept w lsock m' =>
      obtain rfl := Option.some.inj hv
      rcases SocketStep.sysAccept hu hs with ⟨hp, -⟩ | ⟨l', hp, h⟩
      · exact absurd (hp.symm.trans ha) (by simp)
      · cases hp.symm.trans ha
        exact ⟨.inl hu, h⟩
    | resume => exact absurd hv (by simp [caller])
    | _ => simp [pops] at ha

end Streams

end TinyOS
