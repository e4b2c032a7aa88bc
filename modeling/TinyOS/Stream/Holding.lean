import TinyOS.Stream.Allotted
import TinyOS.Stream.Halves
import TinyOS.Stream.Refcount

/-!
# What the streams are

A stream is a device, an end of a pipe, or a socket, from when it is opened on. A device may be open
many times; **an end and a socket are one stream each** (`Named`). A socket is freed by the `Close`
method of its stream, which is called when nothing refers to its FCB any more. So the socket that a
fid denotes is never one that was freed (`Named.denoted_live`).
-/

set_option autoImplicit false

namespace TinyOS

open Transition

/-- What may be open several times. -/
def Stream.device : Stream → Bool
  | .null | .serial _ | .info => true
  | .reader _ | .writer _ | .socket _ => false

namespace Streams

variable {s s' s'' : Streams} {a : StreamAction} {u f : Nat}

/-! ## The reference that a step drops -/

/-- The FCB that the step takes a reference from. -/
def dropped (s : Streams) : StreamAction → Option Nat
  | .close u fd => s.getFCB (s.owner u) fd
  | .dup2 u oldfd newfd =>
    if s.getFCB (s.owner u) oldfd = none ∨
      s.getFCB (s.owner u) newfd = s.getFCB (s.owner u) oldfd then none
    else s.getFCB (s.owner u) newfd
  | .proceed u =>
    match s.pc u with
    | .returning f => some f
    | .exiting i => if i < MAX_FILEID then s.FIDT (s.owner u) i else none
    | _ => none
  | _ => none

/-- The stream that it closes: the reference was the last one. -/
def closing (s : Streams) (a : StreamAction) : Option Stream :=
  (s.dropped a).bind fun f => if (s.FT f).refcount = 1 then (s.FT f).stream else none

theorem closing_eq {st : Stream} (hf : s.dropped a = some f) (hlast : (s.FT f).refcount = 1)
    (hst : (s.FT f).stream = some st) : s.closing a = some st := by
  rw [closing, hf, Option.bind_some, if_pos hlast, hst]

/-- Nobody sleeps in `Accept` at the socket `k`, and no queue of an open socket holds a request of it.
So nothing is left that leads to its SCB, but a peer's pointer. -/
def Unsought (s : Streams) (k : Nat) : Prop :=
  (∀ u < s.threads, (s.pc u).socketPc.listener ≠ some k) ∧
  ∀ l < s.scbs, s.freedSCB l = 0 → ∀ r ∈ (s.scb l).queue, (s.req r).socket ≠ k

instance (s : Streams) (k : Nat) : Decidable (s.Unsought k) :=
  inferInstanceAs (Decidable (_ ∧ _))

/-- A step that closes a socket closes one that nobody gets to any more. -/
def ClosesUnsought (s : Streams) (a : StreamAction) : Prop :=
  ∀ st ∈ s.closing a, ∀ k ∈ st.socket?, s.Unsought k

instance (s : Streams) (a : StreamAction) : Decidable (s.ClosesUnsought a) :=
  inferInstanceAs (Decidable (∀ st ∈ s.closing a, ∀ k ∈ st.socket?, s.Unsought k))

/-- Nothing but entries of file tables, reference counts, and threads that neither sleep in a pipe nor
at a socket. -/
structure Beside (s s' : Streams) : Prop where
  sockets : s'.sockets = s.sockets
  stream : ∀ f, (s'.FT f).stream = (s.FT f).stream
  opens : s'.opens = s.opens
  opening : s'.opening = s.opening
  closes : s'.closes = s.closes
  pipe : s'.pipe = s.pipe
  freedPipe : s'.freedPipe = s.freedPipe
  touchedFreed : s'.touchedFreed = s.touchedFreed
  asleep : ∀ v, (s'.pc v).pipe = (s.pc v).pipe

theorem Beside.trans (h : Beside s s') (h' : Beside s' s'') : Beside s s'' where
  sockets := h'.sockets.trans h.sockets
  stream f := (h'.stream f).trans (h.stream f)
  opens := h'.opens.trans h.opens
  opening := h'.opening.trans h.opening
  closes := h'.closes.trans h.closes
  pipe := h'.pipe.trans h.pipe
  freedPipe := h'.freedPipe.trans h.freedPipe
  touchedFreed := h'.touchedFreed.trans h.touchedFreed
  asleep v := (h'.asleep v).trans (h.asleep v)

theorem beside_files {t : FileTables} (hstream : ∀ f, (t.FT f).stream = (s.FT f).stream) :
    Beside s { s with toFileTables := t } :=
  ⟨sockets_files hstream, hstream, rfl, rfl, rfl, rfl, rfl, rfl, fun _ => rfl⟩

@[refl] theorem Beside.refl (s : Streams) : Beside s s := beside_files fun _ => rfl

theorem beside_goto {pc : StreamPc} (hu : (s.pc u).socketPc = .busy) (hpc : pc.socketPc = .busy)
    (hasleep : pc.pipe = (s.pc u).pipe) : Beside s (s.goto u pc) := by
  refine ⟨s.sockets_goto_busy hu hpc, fun _ => rfl, rfl, rfl, rfl, rfl, rfl, rfl, fun v => ?_⟩
  simp only [goto, Function.update_apply]
  split
  · rename_i hv
    rw [hv, hasleep]
  · rfl

/-- **A step that may drop a reference** is a call of `FCB_decref`, with nothing but file tables before
and after; or there is none to drop. -/
theorem drop_spec (hs : s.perform a = some s') (hu : closer a = some u) :
    s.dropped a = none ∧ Beside s s' ∨ ∃ f s₀ s₁, s.dropped a = some f ∧ Beside s s₀ ∧
      (∀ g, (s₀.FT g).refcount = (s.FT g).refcount) ∧
      (∀ k, denoted s₀.toFileTables (s.owner u) (s.scb k).fid = s.found a k) ∧
      s₀.decrefFCB (s.owner u) f = some s₁ ∧ Beside s₁ s' := by
  rcases perform_cases hs with ⟨q, rfl, -, -⟩ | ⟨v, data, m, rfl, -, -⟩ | ⟨v, rfl, -, hs⟩ |
    ⟨rfl, -⟩ | ⟨v, r, rfl, -, -⟩ | ⟨v, hv, -, hrun, hs⟩
  · exact absurd hu (by simp [closer])
  · exact absurd hu (by simp [closer])
  · obtain rfl := Option.some.inj hu
    unfold Streams.proceed at hs
    split at hs
    · -- A `Read` or `Write` returns.
      rename_i f hf
      have hgoto : Beside s (s.goto v .running) :=
        beside_goto (by rw [hf]; rfl) rfl (by rw [hf]; rfl)
      refine .inr ⟨f, { s.goto v .running with lock := none }, s', by rw [dropped, hf], ?_,
        fun _ => rfl, fun _ => rfl, hs, .refl s'⟩
      exact ⟨hgoto.sockets, fun _ => rfl, rfl, rfl, rfl, rfl, rfl, rfl, hgoto.asleep⟩
    · -- `Exit` clears its next entry.
      rename_i i hi
      have hdropped : s.dropped (.proceed v) =
          if i < MAX_FILEID then s.FIDT (s.owner v) i else none := by
        rw [dropped, hi]
      split at hs
      · rename_i hlt
        rw [if_pos hlt] at hdropped
        obtain ⟨t, ht, rfl⟩ := Option.map_eq_some_iff.mp hs
        obtain ⟨t₁, ht₁, rfl⟩ := Option.map_eq_some_iff.mp ht
        have hpc : t₁.pc v = .exiting i := by
          have hplace := place_decrefEntry ht₁ v
          rw [hi] at hplace
          exact (StreamPc.eq_of_place (.inr (.inr (.inr (.inr ⟨i, rfl⟩))))).mp hplace
        have hafter : Beside t₁ ({ t₁ with
            toFileTables := t₁.setEntry (s.owner v) i none }.goto v (.exiting (i + 1))) := by
          have hset : Beside t₁ { t₁ with toFileTables := t₁.setEntry (s.owner v) i none } :=
            beside_files fun _ => rfl
          refine hset.trans (beside_goto ?_ rfl ?_)
          · exact congrArg StreamPc.socketPc hpc
          · exact (congrArg StreamPc.pipe hpc).symm
        cases hentry : s.FIDT (s.owner v) i with
        | none =>
          rw [hentry] at ht₁
          obtain rfl := Option.some.inj ht₁
          exact .inl ⟨hdropped.trans hentry, hafter⟩
        | some f =>
          rw [hentry] at ht₁
          exact .inr ⟨f, s, t₁, hdropped.trans hentry, .refl s, fun _ => rfl, fun _ => rfl, ht₁,
            hafter⟩
      · rename_i hlt
        cases hs
        rw [if_neg hlt] at hdropped
        have hgoto : Beside s (s.goto v .exited) :=
          beside_goto (by rw [hi]; rfl) rfl (by rw [hi]; rfl)
        refine .inl ⟨hdropped, ?_⟩
        exact ⟨hgoto.sockets, fun _ => rfl, rfl, rfl, rfl, rfl, rfl, rfl, hgoto.asleep⟩
    · exact absurd hs (by simp)
  · exact absurd hu (by simp [closer])
  · exact absurd hu (by simp [closer])
  · cases a with
    | close w fd =>
      -- The entry is cleared before the reference is dropped.
      obtain rfl := Option.some.inj hv
      obtain rfl := Option.some.inj hu
      simp only [call, sysClose] at hs
      split at hs
      · rename_i hf
        cases hs
        exact .inl ⟨hf, .refl s⟩
      · rename_i f hf
        refine .inr ⟨f, { s with toFileTables := s.setEntry (s.owner w) fd none }, s', hf,
          beside_files fun _ => rfl, fun _ => rfl, fun _ => ?_, hs, .refl s'⟩
        exact SocketStep.denoted_setEntry ..
    | dup2 w oldfd newfd =>
      -- And is set after it here.
      obtain rfl := Option.some.inj hv
      obtain rfl := Option.some.inj hu
      have hdropped : s.dropped (.dup2 w oldfd newfd) =
          if s.getFCB (s.owner w) oldfd = none ∨
            s.getFCB (s.owner w) newfd = s.getFCB (s.owner w) oldfd then none
          else s.getFCB (s.owner w) newfd := rfl
      simp only [call, sysDup2] at hs
      split at hs
      · rename_i hrange
        cases hs
        refine .inl ⟨?_, .refl s⟩
        rw [hdropped]
        split
        · rfl
        · rename_i hno
          obtain ⟨hold, -⟩ := not_or.mp hno
          unfold FileTables.getFCB at hold ⊢
          split
          · rfl
          · exact absurd (if_pos (by omega)) hold
      split at hs
      · rename_i hold
        cases hs
        exact .inl ⟨by rw [hdropped, if_pos (.inl hold)], .refl s⟩
      rename_i g hg
      split at hs
      · rename_i hsame
        cases hs
        exact .inl ⟨by rw [hdropped, if_pos (.inr (hsame.trans hg.symm))], .refl s⟩
      rename_i hne
      rw [if_neg (by rw [hg]; exact not_or.mpr ⟨by simp, hne⟩)] at hdropped
      obtain ⟨t₁, ht₁, rfl⟩ := Option.map_eq_some_iff.mp hs
      have hafter : Beside t₁ { t₁ with
          toFileTables := (t₁.increfFCB g).setEntry (s.owner w) newfd (some g) } :=
        beside_files (t₁.increfFCB_stream g)
      cases hentry : s.getFCB (s.owner w) newfd with
      | none =>
        rw [hentry] at ht₁
        obtain rfl := Option.some.inj ht₁
        exact .inl ⟨hdropped.trans hentry, hafter⟩
      | some f =>
        rw [hentry] at ht₁
        exact .inr ⟨f, s, t₁, hdropped.trans hentry, .refl s, fun _ => rfl, fun _ => rfl, ht₁,
          hafter⟩
    | proceed => exact absurd hv (by simp [caller])
    | _ => exact absurd hu (by simp [closer])

/-! ## What the FCBs hold -/

/-- The FCBs hold the streams that they held, and no stream was closed. -/
structure Keeps (s s' : Streams) : Prop where
  stream : ∀ f, (s'.FT f).stream = (s.FT f).stream
  opens : s'.opens = s.opens
  opening : s'.opening = s.opening
  closes : s'.closes = s.closes

theorem Keeps.trans (h : Keeps s s') (h' : Keeps s' s'') : Keeps s s'' where
  stream f := (h'.stream f).trans (h.stream f)
  opens := h'.opens.trans h.opens
  opening := h'.opening.trans h.opening
  closes := h'.closes.trans h.closes

theorem Quiet.keeps (h : Quiet s s') : Keeps s s' :=
  ⟨fun f => by rw [h.files], h.opens, h.opening, h.closes⟩

theorem Goes.keeps (h : Goes s s' u) : Keeps s s' :=
  ⟨fun f => by rw [h.files], h.opens, h.opening, h.closes⟩

theorem Beside.keeps (h : Beside s s') : Keeps s s' := ⟨h.stream, h.opens, h.opening, h.closes⟩

theorem keeps_files {t : FileTables} (hstream : ∀ f, (t.FT f).stream = (s.FT f).stream) :
    Keeps s { s with toFileTables := t } := (beside_files hstream).keeps

@[refl] theorem Keeps.refl (s : Streams) : Keeps s s := keeps_files fun _ => rfl

theorem Keeps.openFCB (h : Keeps s s') (f : Nat) (st : Stream) :
    Keeps (s.openFCB f st) (s'.openFCB f st) := by
  refine ⟨fun g => ?_, ?_, ?_, h.closes⟩
  · simp only [Streams.openFCB, FileTables.modifyFCB_FT]
    split
    · rfl
    · exact h.stream g
  · simp only [Streams.openFCB, h.opens]
  · simp only [Streams.openFCB, h.opening, h.opens]

/-- What a step that closes no stream may open. -/
inductive Opens (s s' : Streams) : Prop where
  | none : Keeps s s' → Opens s s'
  | device {f : Nat} {st : Stream} : st.device = true → Keeps (s.openFCB f st) s' → Opens s s'
  | socket {f : Nat} : s.scbs < s'.scbs → Keeps (s.openFCB f (.socket s.scbs)) s' → Opens s s'
  | pipe {f g : Nat} : s.pipes < s'.pipes → s'.scb = s.scb →
      Keeps ((s.openFCB f (.reader s.pipes)).openFCB g (.writer s.pipes)) s' → Opens s s'

theorem keeps_reserve {num p : Nat} {o : Option (List (Int × Nat))} {t : FileTables}
    (hr : s.reserveFCB num p = (o, t)) : Keeps s { s with toFileTables := t } := by
  have hstream := s.reserveFCB_stream num p
  rw [hr] at hstream
  exact keeps_files hstream

theorem opens_openStream {s₀ : Streams} (h : Keeps s s₀) {p : Nat} {device : Option Stream}
    (hdevice : ∀ st, device = some st → st.device = true) : Opens s (s₀.openStream p device) := by
  unfold openStream
  obtain ⟨t, hr⟩ | ⟨fid, f, t, hr, -⟩ := s₀.reserveFCB_one_cases p
  · rw [hr]
    exact .none (h.trans (keeps_reserve hr))
  · have hk := h.trans (keeps_reserve hr)
    rw [hr]
    cases device with
    | none => exact .none ⟨hk.stream, h.opens, h.opening, h.closes⟩
    | some st => exact .device (hdevice st rfl) (hk.openFCB f st)

theorem opens_sysPipe {p : Nat} {malloc : Bool} (hs : s.sysPipe p malloc = some s') :
    Opens s s' := by
  unfold sysPipe at hs
  obtain ⟨t, hr⟩ | ⟨i₀, f₀, i₁, f₁, t, hr⟩ := s.reserveFCB_two_cases p
  · have hk := keeps_reserve hr
    rw [hr] at hs
    cases hs
    exact .none hk
  · have hk := keeps_reserve hr
    rw [hr] at hs
    cases malloc with
    | false => exact absurd hs (by simp [newPipe])
    | true =>
      simp only [newPipe, if_true, Option.some.injEq] at hs
      subst hs
      refine .pipe (Nat.lt_succ_self s.pipes) rfl (Keeps.openFCB (Keeps.openFCB ?_ f₀ _) f₁ _)
      exact ⟨hk.stream, rfl, rfl, rfl⟩

/-- `Socket`, and what follows it in an `Accept`. -/
theorem opens_sysSocket {s₀ s₁ : Streams} {p : Nat} {port : Int} {malloc : Bool} {o : Option Int}
    (h₀ : Keeps s s₀) (hscbs : s₀.scbs = s.scbs) (hs : s₀.sysSocket p port malloc = (o, s₁))
    (hk : Keeps s₁ s') (hle : s₁.scbs ≤ s'.scbs) : Opens s s' := by
  unfold sysSocket at hs
  split at hs
  · cases hs
    exact .none (h₀.trans hk)
  obtain ⟨t, hr⟩ | ⟨fid, f, t, hr, -⟩ := s₀.reserveFCB_one_cases p
  · have hreserve := keeps_reserve hr
    rw [hr] at hs
    cases hs
    exact .none ((h₀.trans hreserve).trans hk)
  · have hreserve := h₀.trans (keeps_reserve hr)
    rw [hr] at hs
    cases malloc with
    | false =>
      cases hs
      exact .none (hreserve.trans hk)
    | true =>
      cases hs
      simp only [hscbs] at hk
      have hlt : s₀.scbs < s'.scbs := Nat.lt_of_succ_le hle
      refine .socket (f := f) (hscbs ▸ hlt) (Keeps.trans (Keeps.openFCB ?_ f _) hk)
      exact ⟨hreserve.stream, hreserve.opens, hreserve.opening, hreserve.closes⟩

theorem connectPeers_scbs (s : Streams) (k j r : Nat) (m : Mallocs) :
    (s.connectPeers k j r m).scbs = s.scbs := by
  obtain ⟨scb, receive, send⟩ := m
  cases receive <;> cases send <;> rfl

theorem opens_acceptRequest {s₀ : Streams} {p l : Nat} {m : Mallocs} (h₀ : Keeps s s₀)
    (hscbs : s₀.scbs = s.scbs) (hs : s₀.acceptRequest p l m = some s') : Opens s s' := by
  unfold acceptRequest at hs
  split at hs
  case h_2 => exact absurd hs (by simp)
  rename_i r rs _
  have hpop := h₀.trans (quiet_popRequest s₀ l r rs).keeps
  have hscbs₁ : (s₀.popRequest l r rs).scbs = s.scbs := by
    have := congrArg Sockets.scbs (s₀.sockets_popRequest l r rs)
    exact this.trans hscbs
  simp only at hs
  split at hs
  · rename_i s₂ hsock
    cases hs
    exact opens_sysSocket hpop hscbs₁ hsock (quiet_signalConn s₂ r).keeps (Nat.le_refl _)
  · rename_i fid s₂ hsock
    split at hs
    · cases hs
      refine opens_sysSocket hpop hscbs₁ hsock (quiet_connectPeers ..).keeps ?_
      rw [connectPeers_scbs]
    · exact absurd hs (by simp)

theorem opens_sysAccept {lsock : Int} {m : Mallocs} (hs : s.sysAccept u lsock m = some s') :
    Opens s s' := by
  rcases sysAccept_goes hs with hq | ⟨hg, -⟩ | ⟨l, hs⟩
  · exact .none hq.keeps
  · exact .none hg.keeps
  · exact opens_acceptRequest (quiet_access s l).keeps
      (congrArg Sockets.scbs (s.sockets_access l)) hs

theorem opens_resumeAccept {l : Nat} {m : Mallocs} (hs : s.resumeAccept u l m = some s') :
    Opens s s' := by
  have hacc := (quiet_access s l).keeps
  have hgoto : Keeps s ((s.access l).goto u .running) :=
    ⟨hacc.stream, hacc.opens, hacc.opening, hacc.closes⟩
  unfold resumeAccept at hs
  simp only at hs
  split at hs
  · cases hs
    exact .none hgoto
  · exact opens_acceptRequest hgoto (congrArg Sockets.scbs (s.sockets_access l)) hs

theorem keeps_sysConnect {sock port : Int} {malloc : Bool}
    (hs : s.sysConnect u sock port malloc = some s') : Keeps s s' := by
  rcases sysConnect_goes hs with hq | ⟨hg, -⟩
  · exact hq.keeps
  · exact hg.keeps

theorem keeps_resumeConnect (r : Nat) (w : TimedWait) : Keeps s (s.resumeConnect u r w) :=
  (resumeConnect_goes s u r w).1.keeps

theorem keeps_sysRead {fd : Int} {size : Nat} {data : Bool}
    (hs : s.sysRead u fd size data = some s') : Keeps s s' := by
  rcases sysRead_cases hs with rfl | ⟨f, -, hg, -⟩
  · rfl
  · exact (keeps_files (s.increfFCB_stream f)).trans hg.keeps

theorem keeps_sysWrite {fd : Int} {buf : List Byte} {size : Nat}
    (hs : s.sysWrite u fd buf size = some s') : Keeps s s' := by
  rcases sysWrite_cases hs with rfl | ⟨f, -, hg, -⟩
  · rfl
  · exact (keeps_files (s.increfFCB_stream f)).trans hg.keeps

theorem keeps_sysExec (p q : Nat) (call : Bool) : Keeps s (s.sysExec p q call) := by
  have hinherit := keeps_files (s := { s with pstate := Function.update s.pstate q .alive })
    (s.inherit_stream p q FileTables.fids)
  unfold sysExec
  simp only
  split <;> exact ⟨hinherit.stream, rfl, rfl, rfl⟩

/-- Most calls open streams, or do nothing to them. -/
theorem opens_call (ha : caller a = some u) (hu : closer a = none) (hs : s.call u a = some s') :
    Opens s s' := by
  cases a with
  | openNull v =>
    cases hs
    exact opens_openStream (.refl s) fun st hst => Option.some.inj hst ▸ rfl
  | openTerminal v termno =>
    cases hs
    refine opens_openStream (.refl s) fun st hst => ?_
    split at hst <;> cases hst
    rfl
  | pipe v malloc => exact opens_sysPipe hs
  | socket v port malloc =>
    cases hs
    exact opens_sysSocket (.refl s) rfl rfl (.refl _) (Nat.le_refl _)
  | openInfo v info table copied =>
    obtain ⟨r, hr, rfl⟩ := Option.map_eq_some_iff.mp hs
    rcases sysOpenInfo_cases hr with ⟨index, h⟩ | ⟨-, h⟩
    · rw [h]
      have hk : Keeps s { s with infoIndex := index } := ⟨fun _ => rfl, rfl, rfl, rfl⟩
      exact opens_openStream hk fun st hst => Option.some.inj hst ▸ rfl
    · rw [h]
      exact .none (keeps_files (s.reserveFCB_stream 1 _))
  | listen v sock =>
    cases hs
    exact .none (quiet_sysListen ..).keeps
  | accept v lsock m => exact opens_sysAccept hs
  | connect v sock port malloc => exact .none (keeps_sysConnect hs)
  | shutDown v sock how =>
    cases hs
    exact .none (quiet_sysShutDown ..).keeps
  | read v fd size data => exact .none (keeps_sysRead hs)
  | write v fd buf size => exact .none (keeps_sysWrite hs)
  | exec v q call =>
    obtain ⟨-, hs⟩ := Option.ite_none_right_eq_some.mp hs
    cases hs
    exact .none (keeps_sysExec ..)
  | createThread v =>
    cases hs
    exact .none ⟨fun _ => rfl, rfl, rfl, rfl⟩
  | exit v =>
    cases hs
    exact .none ⟨fun _ => rfl, rfl, rfl, rfl⟩
  | close | dup2 => exact absurd hu (by simp [closer])
  | reap | resume | proceed | rxReady | timeout => exact absurd ha (by simp [caller])

theorem opens_of_closer (hu : closer a = none) (hs : s.perform a = some s') : Opens s s' := by
  rcases perform_cases hs with ⟨p, rfl, -, rfl⟩ | ⟨u, data, m, rfl, -, hs⟩ | ⟨u, rfl, -, -⟩ |
    ⟨rfl, rfl⟩ | ⟨u, r, rfl, -, rfl⟩ | ⟨u, ha, -, -, hs⟩
  · exact .none ⟨fun _ => rfl, rfl, rfl, rfl⟩
  · unfold Streams.resume at hs
    split at hs
    · cases hs
      exact .none (goes_pipeReadStretch (.refl s) ..).1.keeps
    · cases hs
      exact .none (goes_endWrite (.refl s) ..).1.keeps
    · cases hs
      exact .none (goes_serialReadStretch ..).1.keeps
    · exact opens_resumeAccept hs
    · cases hs
      exact .none (keeps_resumeConnect ..)
    · cases hs
      exact .none (keeps_resumeConnect ..)
    · exact absurd hs (by simp)
  · exact absurd hu (by simp [closer])
  · exact .none ⟨fun _ => rfl, rfl, rfl, rfl⟩
  · exact .none ⟨fun _ => rfl, rfl, rfl, rfl⟩
  · exact opens_call ha hu hs

theorem dropped_eq_none (hu : closer a = none) : s.dropped a = none := by
  cases a with
  | close | dup2 | proceed => exact absurd hu (by simp [closer])
  | _ => rfl

/-- **A step opens streams, or closes one, or does neither.** -/
theorem opens_or_closes (hs : s.perform a = some s') : s.closing a = none ∧ Opens s s' ∨
    ∃ f st, s.dropped a = some f ∧ (s.FT f).refcount = 1 ∧ (s.FT f).stream = some st ∧
      Keeps { s with closes := s.closes ++ [s.opening f] } s' := by
  cases hu : closer a with
  | none =>
    refine .inl ⟨?_, opens_of_closer hu hs⟩
    rw [closing, dropped_eq_none hu, Option.bind_none]
  | some u =>
    rcases drop_spec hs hu with ⟨hf, h⟩ | ⟨f, s₀, s₁, hf, h₀, hcount, -, hd, h₁⟩
    · refine .inl ⟨?_, .none h.keeps⟩
      rw [closing, hf, Option.bind_none]
    have hdec := decref_of hd
    have hclosed : s'.closes =
        if (s.FT f).refcount = 1 then s.closes ++ [s.opening f] else s.closes := by
      rw [h₁.closes, hdec.closes, hcount, h₀.closes, h₀.opening]
    have hkeep : ∀ cs, s'.closes = cs → Keeps { s with closes := cs } s' := fun cs hcs =>
      ⟨fun g => by rw [h₁.stream, hdec.stream, h₀.stream], by rw [h₁.opens, hdec.opens, h₀.opens],
        by rw [h₁.opening, hdec.opening, h₀.opening], hcs⟩
    by_cases hlast : (s.FT f).refcount = 1
    · rw [if_pos hlast] at hclosed
      obtain ⟨st, hst⟩ := exists_stream_of_decrefFCB hd (by rw [hcount, hlast])
      rw [h₀.stream] at hst
      exact .inr ⟨f, st, hf, hlast, hst, hkeep _ hclosed⟩
    · rw [if_neg hlast] at hclosed
      refine .inl ⟨?_, .none (hkeep _ hclosed)⟩
      rw [closing, hf, Option.bind_some, if_neg hlast]

/-- **A socket is freed by the step that closes its stream.** -/
theorem closing_of_freed {k : Nat} (hs : s.perform a = some s')
    (hfreed : s'.freedSCB k ≠ s.freedSCB k) : s.closing a = some (.socket k) := by
  rcases (socketStep hs).freed with hsame | ⟨u, -, hu, -⟩
  · exact absurd (congrFun hsame k) hfreed
  have hbeside : ∀ {t t' : Streams}, Beside t t' → t'.freedSCB k = t.freedSCB k := fun h =>
    congrFun (congrArg Sockets.freedSCB h.sockets) k
  rcases drop_spec hs hu with ⟨-, h⟩ | ⟨f, s₀, s₁, hf, h₀, hcount, -, hd, h₁⟩
  · exact absurd (hbeside h) hfreed
  rw [hbeside h₁, ← hbeside h₀] at hfreed
  rcases sockets_decrefFCB hd with ⟨hsame, -⟩ | ⟨j, hlast, hst, -, hclose⟩
  · exact absurd (congrFun (congrArg Sockets.freedSCB hsame) k) hfreed
  rw [hcount] at hlast
  rw [h₀.stream] at hst
  have hj : k = j := by
    by_contra hne
    refine hfreed ?_
    change s₁.sockets.freedSCB k = _
    rw [Sockets.close_freed hclose, Function.update_of_ne hne]
    rfl
  exact hj ▸ closing_eq hf hlast hst

/-! ## Ends and sockets are opened once -/

theorem SocketStep.mono {n : Sockets} (hs : SocketStep s a n) :
    s.scbs ≤ n.scbs ∧ s.pipes ≤ n.pipes := by
  cases hs with
  | quiet | forget | listen | sleep | refuse | leave | timeout | spawn =>
    exact ⟨Nat.le_refl _, Nat.le_refl _⟩
  | pipe => exact ⟨Nat.le_refl _, Nat.le_succ _⟩
  | create => exact ⟨Nat.le_succ _, Nat.le_refl _⟩
  | @serve u l r m =>
    obtain ⟨scb, receive, send⟩ := m
    cases receive <;> cases send
    · exact ⟨Nat.le_succ _, Nat.le_refl _⟩
    · exact ⟨Nat.le_succ _, Nat.le_succ _⟩
    · exact ⟨Nat.le_succ _, Nat.le_succ _⟩
    · exact ⟨Nat.le_succ _, Nat.le_add_right _ 2⟩
  | request =>
    rw [Sockets.request_eq]
    exact ⟨Nat.le_refl _, Nat.le_refl _⟩
  | answer =>
    unfold Sockets.answer
    simp only
    split <;> exact ⟨Nat.le_refl _, Nat.le_refl _⟩
  | shut =>
    rw [(Sockets.shuts_shutDown ..).eq]
    exact ⟨Nat.le_refl _, Nat.le_refl _⟩
  | close _ _ _ _ hc =>
    rw [Sockets.close_eq hc]
    exact ⟨Nat.le_refl _, Nat.le_refl _⟩

/-- `object i` is what the stream `i` is. -/
structure Named (s : Streams) (object : Nat → Stream) : Prop where
  stream : ∀ f st, (s.FT f).stream = some st → s.opening f < s.opens ∧ object (s.opening f) = st
  one : ∀ i < s.opens, ∀ j < s.opens, object i = object j → (object i).device = false → i = j
  socket : ∀ i < s.opens, ∀ k, object i = .socket k → k < s.scbs
  pipe : ∀ i < s.opens, ∀ q, object i = .reader q ∨ object i = .writer q → q < s.pipes
  closes : ∀ i ∈ s.closes, i < s.opens
  freed : ∀ k, s.freedSCB k ≠ 0 → ∃ i ∈ s.closes, object i = .socket k

variable {object : Nat → Stream} {R : Nat → List FileTables.Ref} {k : Nat}

theorem Named.keeps (h : s.Named object) (hk : Keeps s s') (hscbs : s.scbs ≤ s'.scbs)
    (hpipes : s.pipes ≤ s'.pipes)
    (hfreed : ∀ k, s'.freedSCB k ≠ 0 → ∃ i ∈ s.closes, object i = .socket k) :
    s'.Named object := by
  constructor <;> simp only [hk.stream, hk.opens, hk.opening, hk.closes]
  case stream => exact h.stream
  case one => exact h.one
  case socket => exact fun i hi k hik => Nat.lt_of_lt_of_le (h.socket i hi k hik) hscbs
  case pipe => exact fun i hi q hiq => Nat.lt_of_lt_of_le (h.pipe i hi q hiq) hpipes
  case closes => exact h.closes
  case freed => exact hfreed

/-- A device is opened, or what was not open before. -/
theorem Named.openFCB (h : s.Named object) (f : Nat) (st : Stream)
    (hnew : st.device = true ∨ ∀ i < s.opens, object i ≠ st)
    (hsocket : ∀ k, st = .socket k → k < s.scbs)
    (hpipe : ∀ q, st = .reader q ∨ st = .writer q → q < s.pipes) :
    (s.openFCB f st).Named (Function.update object s.opens st) := by
  have hold : ∀ i < s.opens, Function.update object s.opens st i = object i := fun i hi =>
    Function.update_of_ne (Nat.ne_of_lt hi) ..
  constructor <;> simp only [Streams.openFCB]
  case stream =>
    intro g st' hg
    rw [FileTables.modifyFCB_FT] at hg
    by_cases hgf : g = f
    · subst hgf
      rw [if_pos rfl] at hg
      obtain rfl := Option.some.inj hg
      simp only [Function.update_self]
      exact ⟨Nat.lt_succ_self _, trivial⟩
    · rw [if_neg hgf] at hg
      obtain ⟨hlt, hobject⟩ := h.stream g st' hg
      rw [Function.update_of_ne hgf, hold _ hlt]
      exact ⟨Nat.lt_succ_of_lt hlt, hobject⟩
  case one =>
    -- Of two streams, either may be the new one.
    intro i hi j hj hij hdevice
    rcases Nat.lt_succ_iff_lt_or_eq.mp hi with hi | rfl <;>
      rcases Nat.lt_succ_iff_lt_or_eq.mp hj with hj | rfl
    · rw [hold i hi, hold j hj] at hij
      rw [hold i hi] at hdevice
      exact h.one i hi j hj hij hdevice
    · rw [hold i hi, Function.update_self] at hij
      rw [hold i hi, hij] at hdevice
      rcases hnew with hd | hnew
      · exact absurd (hd.symm.trans hdevice) (by simp)
      · exact absurd hij (hnew i hi)
    · rw [hold j hj, Function.update_self] at hij
      rw [Function.update_self] at hdevice
      rcases hnew with hd | hnew
      · exact absurd (hd.symm.trans hdevice) (by simp)
      · exact absurd hij.symm (hnew j hj)
    · rfl
  case socket =>
    intro i hi k hik
    rcases Nat.lt_succ_iff_lt_or_eq.mp hi with hi | rfl
    · rw [hold i hi] at hik
      exact h.socket i hi k hik
    · rw [Function.update_self] at hik
      exact hsocket k hik
  case pipe =>
    intro i hi q hiq
    rcases Nat.lt_succ_iff_lt_or_eq.mp hi with hi | rfl
    · rw [hold i hi] at hiq
      exact h.pipe i hi q hiq
    · rw [Function.update_self] at hiq
      exact hpipe q hiq
  case closes => exact fun i hi => Nat.lt_succ_of_lt (h.closes i hi)
  case freed =>
    intro k hk
    obtain ⟨i, hi, hik⟩ := h.freed k hk
    exact ⟨i, hi, by rw [hold i (h.closes i hi), hik]⟩

/-- The next numbers are allotted. -/
theorem Named.allot (h : s.Named object) {scbs pipes : Nat} (hscbs : s.scbs ≤ scbs)
    (hpipes : s.pipes ≤ pipes) : ({ s with scbs := scbs, pipes := pipes } : Streams).Named object :=
  h.keeps ⟨fun _ => rfl, rfl, rfl, rfl⟩ hscbs hpipes h.freed

/-- The pipes of the streams that are opened from `s` on are new, and no sockets change meanwhile. -/
def NewPipes (s s' : Streams) (object : Nat → Stream) : Prop :=
  ∀ i, s.opens ≤ i → i < s'.opens → ∀ q, object i = .reader q ∨ object i = .writer q →
    s.pipes ≤ q ∧ s'.scb = s.scb

theorem Named.opens (h : s.Named object) (ho : Opens s s') (hscbs : s.scbs ≤ s'.scbs)
    (hpipes : s.pipes ≤ s'.pipes) (hfreed : s'.freedSCB = s.freedSCB) :
    ∃ object', s'.Named object' ∧ (∀ i < s.opens, object' i = object i) ∧
      s.NewPipes s' object' := by
  have hopen := h.allot hscbs hpipes
  have hold : ∀ (object : Nat → Stream) (n : Nat) (st : Stream),
      ∀ i < n, Function.update object n st i = object i := fun object n st i hi =>
    Function.update_of_ne (Nat.ne_of_lt hi) ..
  -- The numbers are allotted first, and then the stream is opened.
  have hmake : ∀ {t : Streams} {object' : Nat → Stream}, t.Named object' → Keeps t s' →
      t.scbs = s'.scbs → t.pipes = s'.pipes → t.freedSCB = s.freedSCB → s'.Named object' := by
    intro t object' ht hk hscbs hpipes hsame
    refine ht.keeps hk hscbs.le hpipes.le fun k hne => ht.freed k ?_
    rwa [hsame, ← hfreed]
  cases ho with
  | none hk =>
    refine ⟨object, hmake hopen ⟨hk.stream, hk.opens, hk.opening, hk.closes⟩ rfl rfl rfl,
      fun _ _ => rfl, fun i hi hi' => ?_⟩
    rw [hk.opens] at hi'
    omega
  | @device f st hd hk =>
    have hnamed := hopen.openFCB f st (.inl hd) (fun k he => by simp [he, Stream.device] at hd)
      fun q he => by rcases he with he | he <;> simp [he, Stream.device] at hd
    refine ⟨_, hmake hnamed ⟨hk.stream, hk.opens, hk.opening, hk.closes⟩ rfl rfl rfl, hold _ _ _,
      fun i hi hi' q hq => ?_⟩
    rw [hk.opens] at hi'
    obtain rfl : i = s.opens := by
      change i < s.opens + 1 at hi'
      omega
    simp only [Function.update_self] at hq
    rcases hq with rfl | rfl <;> simp [Stream.device] at hd
  | @socket f hlt hk =>
    have hnamed := hopen.openFCB f (.socket s.scbs)
      (.inr fun i hi he => absurd (h.socket i hi s.scbs he) (Nat.lt_irrefl _))
      (fun k he => Stream.socket.inj he ▸ hlt) (by simp)
    refine ⟨_, hmake hnamed ⟨hk.stream, hk.opens, hk.opening, hk.closes⟩ rfl rfl rfl, hold _ _ _,
      fun i hi hi' q hq => ?_⟩
    rw [hk.opens] at hi'
    obtain rfl : i = s.opens := by
      change i < s.opens + 1 at hi'
      omega
    simp [Function.update_self] at hq
  | @pipe f g hlt hscb hk =>
    have hno : ∀ i < s.opens, object i ≠ .reader s.pipes ∧ object i ≠ .writer s.pipes := fun i hi =>
      ⟨fun he => absurd (h.pipe i hi s.pipes (.inl he)) (Nat.lt_irrefl _),
        fun he => absurd (h.pipe i hi s.pipes (.inr he)) (Nat.lt_irrefl _)⟩
    have hreader := hopen.openFCB f (.reader s.pipes) (.inr fun i hi => (hno i hi).1) (by simp)
      fun q he => by
        obtain rfl : s.pipes = q := by simpa using he
        exact hlt
    have hwriter := hreader.openFCB g (.writer s.pipes) (.inr fun i hi => ?_) (by simp)
      fun q he => by
        obtain rfl : s.pipes = q := by simpa using he
        exact hlt
    · refine ⟨_, hmake hwriter ⟨hk.stream, hk.opens, hk.opening, hk.closes⟩ rfl rfl rfl,
        fun i hi => ?_, fun i hi hi' q hq => ⟨?_, hscb⟩⟩
      · exact (hold _ _ _ i (Nat.lt_succ_of_lt hi)).trans (hold _ _ _ i hi)
      · rw [hk.opens] at hi'
        change i < s.opens + 1 + 1 at hi'
        rcases Nat.lt_or_ge s.opens i with hlt | hle
        · obtain rfl : i = s.opens + 1 := by omega
          simp only [Streams.openFCB, Function.update_self] at hq
          simp at hq
          omega
        · obtain rfl : i = s.opens := by omega
          simp only [Streams.openFCB, hold _ (s.opens + 1) _ s.opens (Nat.lt_succ_self _),
            Function.update_self] at hq
          simp at hq
          omega
    · rcases Nat.lt_succ_iff_lt_or_eq.mp hi with hi | rfl
      · rw [hold _ _ _ i hi]
        exact (hno i hi).2
      · rw [Function.update_self]
        simp

theorem Named.step (h : s.Named object) (hs : s.perform a = some s') :
    ∃ object', s'.Named object' ∧ (∀ i < s.opens, object' i = object i) ∧
      s.NewPipes s' object' := by
  obtain ⟨hscbs, hpipes⟩ := (socketStep hs).mono
  rcases opens_or_closes hs with ⟨hno, ho⟩ | ⟨f, st, hf, hlast, hst, hk⟩
  · refine h.opens ho hscbs hpipes (funext fun k => ?_)
    by_contra hne
    exact absurd (hno.symm.trans (closing_of_freed hs hne)) (by simp)
  · obtain ⟨hlt, hobject⟩ := h.stream f st hst
    have hclosed : ({ s with closes := s.closes ++ [s.opening f] } : Streams).Named object := by
      refine ⟨h.stream, h.one, h.socket, h.pipe, fun i hi => ?_, fun k hfreed => ?_⟩
      · rcases List.mem_append.mp hi with hi | hi
        · exact h.closes i hi
        · exact List.mem_singleton.mp hi ▸ hlt
      · obtain ⟨i, hi, hik⟩ := h.freed k hfreed
        exact ⟨i, List.mem_append_left _ hi, hik⟩
    refine ⟨object, hclosed.keeps hk hscbs hpipes fun k hfreed => ?_, fun _ _ => rfl,
      fun i hi hi' => ?_⟩
    case refine_2 =>
      rw [hk.opens] at hi'
      exact absurd hi' (Nat.not_lt_of_le hi)
    by_cases hne : s'.freedSCB k = s.freedSCB k
    · exact hclosed.freed k (hne ▸ hfreed)
    · have hst' := (closing_eq hf hlast hst).symm.trans (closing_of_freed hs hne)
      refine ⟨s.opening f, by simp, ?_⟩
      rw [hobject, Option.some.inj hst']

/-- **In every run, the ends of pipes and the sockets are different streams.** -/
theorem named {C : Streams → StreamAction → Prop} (hr : streamSys.ReachIf C s) :
    ∃ object, s.Named object := by
  induction hr with
  | init hi =>
    obtain ⟨serialPorts, rfl⟩ := hi
    refine ⟨fun _ => .null, ?_⟩
    constructor <;> simp [initial, FileTables.initializeFiles]
  | step _ _ hs ih =>
    obtain ⟨object, h⟩ := ih
    obtain ⟨object', h', -⟩ := h.step hs
    exact ⟨object', h'⟩

/-! ## What fids denote -/

/-- An FCB in use does not hold a stream that was closed. -/
theorem Named.unclosed (h : s.Named object) (hi : s.Inv R) {st : Stream} (hf : R f ≠ [])
    (hst : (s.FT f).stream = some st) (hdevice : st.device = false) :
    ∀ i ∈ s.closes, object i ≠ st := by
  intro i hc he
  obtain ⟨hlt, hobject⟩ := h.stream f st hst
  have hsame : object i = object (s.opening f) := he.trans hobject.symm
  obtain rfl := h.one i (h.closes i hc) _ hlt hsame (by rw [he, hdevice])
  exact (hi.opened.opening f hf).2 hc

theorem Named.live (h : s.Named object) (hi : s.Inv R) (hf : R f ≠ [])
    (hst : (s.FT f).stream = some (.socket k)) : s.freedSCB k = 0 := by
  by_contra hfreed
  obtain ⟨i, hc, he⟩ := h.freed k hfreed
  exact h.unclosed hi hf hst rfl i hc he

theorem Inv.inUse_of_getFCB (hi : s.Inv R) {p : Nat} {fd : Int} (hf : s.getFCB p fd = some f) :
    R f ≠ [] := List.ne_nil_of_mem ((hi.files.entries f p fd).mpr (getFCB_eq hf))

theorem Inv.inUse_of_dropped (hi : s.Inv R) (hf : s.dropped a = some f) : R f ≠ [] := by
  cases a with
  | close u fd => exact hi.inUse_of_getFCB hf
  | dup2 u oldfd newfd =>
    simp only [dropped] at hf
    split at hf
    · exact absurd hf (by simp)
    · exact hi.inUse_of_getFCB hf
  | proceed u =>
    simp only [dropped] at hf
    split at hf
    · rename_i g hu
      obtain rfl := Option.some.inj hf
      refine List.ne_nil_of_mem ((hi.files.threads g u).mpr ?_)
      rw [hu]
      rfl
    · obtain ⟨-, hf⟩ := Option.ite_none_right_eq_some.mp hf
      exact List.ne_nil_of_mem ((hi.files.entries f _ _).mpr hf)
    · exact absurd hf (by simp)
  | _ => exact absurd hf (by simp [dropped])

/-- **A fid does not denote a socket that was freed.** -/
theorem Named.denoted_live (h : s.Named object) (hi : s.Inv R) {p : Nat} {fd : Int}
    (hk : denoted s.toFileTables p fd = some k) : s.freedSCB k = 0 := by
  obtain ⟨st, hst, hk⟩ := Option.bind_eq_some_iff.mp hk
  obtain ⟨f, hf, hst⟩ := Option.bind_eq_some_iff.mp hst
  cases st with
  | socket j =>
    obtain rfl := Option.some.inj hk
    exact h.live hi (hi.inUse_of_getFCB hf) hst
  | _ => exact absurd hk (by simp [Stream.socket?])

/-- And none is closed a second time. -/
theorem Named.closing_live (h : s.Named object) (hi : s.Inv R)
    (hk : s.closing a = some (.socket k)) : s.freedSCB k = 0 := by
  obtain ⟨f, hf, hst⟩ := Option.bind_eq_some_iff.mp hk
  obtain ⟨-, hst⟩ := Option.ite_none_right_eq_some.mp hst
  exact h.live hi (hi.inUse_of_dropped hf) hst

end Streams

end TinyOS
