import Mathlib
import TinyOS.Stream.Allotted
import TinyOS.Stream.Halves
import TinyOS.Stream.Peers

/-!
# The last reference to a socket

What else changes when the last reference to a socket is dropped. `socket_close` finds the socket
again through the `fid` in its SCB, in the table of the process that happens to close it, and shuts
down whatever that denotes there. **It changes what is its own, and nothing else, exactly if that is
nobody else's connection** (`drop_confined`).
-/

set_option autoImplicit false

namespace TinyOS

open Transition

namespace Streams

variable {s s' s'' : Streams} {a : StreamAction} {u p f k : Nat}

/-! ## The FCB of the socket -/

/-- The FCB that the action gives one more fid: `Dup2` does, to that of `oldfd`. -/
def gains (s : Streams) : StreamAction → Option Nat
  | .dup2 u oldfd _ => s.getFCB (s.owner u) oldfd
  | _ => none

/-- From `s` to `s'`, the FCB of the socket `k` is released. No fid has changed but those that
denoted it, in the process of `u`, and no other FCB but for what `Dup2` gives. -/
def Released (s : Streams) (a : StreamAction) (s' : Streams) (u k : Nat) : Prop :=
  ∃ f, (s.FT f).stream = some (.socket k) ∧ s'.freelist = s.freelist ++ [f] ∧
    (∀ g, g ≠ f → (s'.FT g).refcount = (s.FT g).refcount + if s.gains a = some g then 1 else 0) ∧
    ∀ p i, s'.FIDT p i ≠ s.FIDT p i → p = s.owner u ∧ s.FIDT p i = some f

/-- A last reference is dropped in the file tables `t`, which are those of `s` but for a fid that is
cleared. -/
theorem decref_files {t t' : FileTables} (ht : t' = (t.decrementFCB f).releaseFCB f)
    (hFT : t.FT = s.FT) (hfree : t.freelist = s.freelist) :
    t'.freelist = s.freelist ++ [f] ∧ (∀ g, g ≠ f → (t'.FT g).refcount = (s.FT g).refcount) ∧
      t'.FIDT = t.FIDT := by
  subst ht
  refine ⟨congrArg (· ++ [f]) hfree, fun g hg => ?_, rfl⟩
  have hcount := t.decrementFCB_refcount f g
  rw [if_neg hg, hFT] at hcount
  exact hcount

/-! ## The four callers -/

/-- Nothing but file tables, of which no stream, and the place of the thread `u`. -/
structure Aside (u : Nat) (s s' : Streams) : Prop where
  scb : s'.scb = s.scb
  freedSCB : s'.freedSCB = s.freedSCB
  pipe : s'.pipe = s.pipe
  freedPipe : s'.freedPipe = s.freedPipe
  PortMap : s'.PortMap = s.PortMap
  acceptors : s'.acceptors = s.acceptors
  req : s'.req = s.req
  owner : s'.owner = s.owner
  stream : ∀ g, (s'.FT g).stream = (s.FT g).stream
  pc : ∀ v, v ≠ u → s'.pc v = s.pc v

theorem Aside.trans (h : Aside u s s') (h' : Aside u s' s'') : Aside u s s'' where
  scb := h'.scb.trans h.scb
  freedSCB := h'.freedSCB.trans h.freedSCB
  pipe := h'.pipe.trans h.pipe
  freedPipe := h'.freedPipe.trans h.freedPipe
  PortMap := h'.PortMap.trans h.PortMap
  acceptors := h'.acceptors.trans h.acceptors
  req := h'.req.trans h.req
  owner := h'.owner.trans h.owner
  stream g := (h'.stream g).trans (h.stream g)
  pc v hv := (h'.pc v hv).trans (h.pc v hv)

theorem aside_files (u : Nat) {t : FileTables} (hstream : ∀ g, (t.FT g).stream = (s.FT g).stream) :
    Aside u s { s with toFileTables := t } :=
  ⟨rfl, rfl, rfl, rfl, rfl, rfl, rfl, rfl, hstream, fun _ _ => rfl⟩

theorem aside_goto (u : Nat) (pc : StreamPc) : Aside u s (s.goto u pc) := by
  refine ⟨rfl, rfl, rfl, rfl, rfl, rfl, rfl, rfl, fun _ => rfl, fun v hv => ?_⟩
  exact Function.update_of_ne hv ..

/-- The `Close` of a socket that is freed, from within `FCB_decref`. -/
theorem decrefFCB_drop (hs : s.decrefFCB p f = some s') (hfree : s'.freedSCB k ≠ s.freedSCB k) :
    ∃ s₁, (s.FT f).stream = some (.socket k) ∧
      ({ s with toFileTables := s.decrementFCB f } : Streams).socketClose p k = some s₁ ∧
      s' = { s₁ with
        closes := s₁.closes ++ [s₁.opening f]
        toFileTables := s₁.releaseFCB f } := by
  unfold decrefFCB at hs
  simp only at hs
  split at hs
  · split at hs
    · exact absurd hs (by simp)
    rename_i st hst
    rw [FileTables.decrementFCB_stream] at hst
    obtain ⟨s₁, hs₁, rfl⟩ := Option.map_eq_some_iff.mp hs
    have hfree : s₁.sockets.freedSCB k ≠ s.freedSCB k := hfree
    cases st with
    | socket j =>
      by_cases hj : k = j
      · exact ⟨s₁, hj ▸ hst, hj ▸ hs₁, rfl⟩
      · refine absurd ?_ hfree
        rcases sockets_socketClose hs₁ with ⟨-, hsame⟩ | ⟨-, hclose⟩
        · rw [hsame]
          rfl
        · rw [Sockets.close_freed hclose, Function.update_of_ne hj]
          rfl
    | reader q =>
      refine absurd ?_ hfree
      rw [← Option.some.inj hs₁, sockets_readerClose]
      rfl
    | writer q =>
      refine absurd ?_ hfree
      rw [← Option.some.inj hs₁, sockets_writerClose]
      rfl
    | null | serial _ | info => exact absurd (Option.some.inj hs₁ ▸ rfl) hfree
  · exact absurd (Option.some.inj hs ▸ rfl) hfree

/-- From `s` to `s'`, the thread `u` calls `socket_close` for the socket `k`, with nothing but file
tables before and after. -/
def Drops (s : Streams) (a : StreamAction) (s' : Streams) (u k : Nat) : Prop :=
  ∃ s₀ s₁, Aside u s s₀ ∧ s₀.socketClose (s.owner u) k = some s₁ ∧
    denoted s₀.toFileTables (s.owner u) (s.scb k).fid = s.found a k ∧ Aside u s₁ s' ∧
    s.Released a s' u k

/-- `t` is `s` before the `FCB_decref`, with perhaps a fid cleared, and `s'` is `t'` after it, with
perhaps a fid set. -/
theorem drops_of_decref {t t' : Streams} (hbefore : Aside u s t)
    (hden : denoted t.toFileTables (s.owner u) (s.scb k).fid = s.found a k) (hFT : t.FT = s.FT)
    (hfree : t.freelist = s.freelist) (hs : t.decrefFCB (s.owner u) f = some t')
    (hfreed : t'.freedSCB k ≠ s.freedSCB k) (hafter : Aside u t' s')
    (hfree' : s'.freelist = t'.freelist)
    (hcount : ∀ g, (s'.FT g).refcount =
      (t'.FT g).refcount + if s.gains a = some g then 1 else 0)
    (hentry : t'.FIDT = t.FIDT → ∀ q i, s'.FIDT q i ≠ s.FIDT q i →
      q = s.owner u ∧ s.FIDT q i = some f) : s.Drops a s' u k := by
  obtain ⟨s₁, hstream, hclose, rfl⟩ := decrefFCB_drop hs (by rw [hbefore.freedSCB]; exact hfreed)
  have hfiles : s₁.releaseFCB f = (t.decrementFCB f).releaseFCB f :=
    congrArg (FileTables.releaseFCB · f) (quiet_socketClose hclose).files
  obtain ⟨hlist, hothers, hentries⟩ := decref_files hfiles hFT hfree
  have hreleased : Aside u s₁ { s₁ with
      closes := s₁.closes ++ [s₁.opening f], toFileTables := s₁.releaseFCB f } :=
    ⟨rfl, rfl, rfl, rfl, rfl, rfl, rfl, rfl, fun _ => rfl, fun _ _ => rfl⟩
  refine ⟨_, s₁, hbefore.trans (aside_files u (t.decrementFCB_stream f)), hclose, ?_,
    hreleased.trans hafter, f, (hbefore.stream f).symm.trans hstream, hfree'.trans hlist,
    fun g hg => ?_, hentry hentries⟩
  · rw [← hden]
    simp only [denoted, FileTables.decrementFCB_stream]
    rfl
  · rw [hcount g]
    exact congrArg (· + _) (hothers g hg)

/-- A `Read` or `Write` returns. -/
theorem drops_return {lock : Option Nat}
    (hs : ({ s.goto u .running with lock := lock } : Streams).decrefFCB (s.owner u) f = some s')
    (hfree : s'.freedSCB k ≠ s.freedSCB k) : s.Drops (.proceed u) s' u k := by
  have hbefore : Aside u s { s.goto u .running with lock := lock } :=
    ⟨rfl, rfl, rfl, rfl, rfl, rfl, rfl, rfl, fun _ => rfl, (aside_goto (s := s) u .running).pc⟩
  exact drops_of_decref hbefore rfl rfl rfl hs hfree
    ⟨rfl, rfl, rfl, rfl, rfl, rfl, rfl, rfl, fun _ => rfl, fun _ _ => rfl⟩ rfl
    (fun g => (Int.add_zero _).symm) fun h p i hi => absurd (congrFun (congrFun h p) i) hi

/-- `Exit` clears its next entry. -/
theorem drops_exit {t : Streams} {i : Int} {pc : StreamPc}
    (ht : s.exitEntry (s.owner u) i = some t) (hfree : t.freedSCB k ≠ s.freedSCB k) :
    s.Drops (.proceed u) (t.goto u pc) u k := by
  obtain ⟨t, hdecref, rfl⟩ := Option.map_eq_some_iff.mp ht
  cases hentry : s.FIDT (s.owner u) i with
  | none =>
    rw [hentry] at hdecref
    exact absurd (Option.some.inj hdecref ▸ rfl) hfree
  | some g =>
    rw [hentry] at hdecref
    have hbefore : Aside u s s := aside_files u fun _ => rfl
    have hcleared : Aside u t { t with toFileTables := t.setEntry (s.owner u) i none } :=
      aside_files u fun _ => rfl
    refine drops_of_decref hbefore rfl rfl rfl hdecref hfree (hcleared.trans (aside_goto u pc)) rfl
      (fun _ => (Int.add_zero _).symm) fun h p j hj => ?_
    obtain ⟨rfl, rfl⟩ : p = s.owner u ∧ j = i := by
      by_contra hne
      refine hj (((t.setEntry_FIDT ..).trans (if_neg hne)).trans ?_)
      exact congrFun (congrFun h p) j
    exact ⟨rfl, hentry⟩

theorem drops_close {fd : Int} (hs : s.sysClose (s.owner u) fd = some s')
    (hfree : s'.freedSCB k ≠ s.freedSCB k) : s.Drops (.close u fd) s' u k := by
  unfold sysClose at hs
  split at hs
  · cases hs
    exact absurd rfl hfree
  · rename_i f hf
    have hbefore : Aside u s { s with toFileTables := s.setEntry (s.owner u) fd none } :=
      aside_files u fun _ => rfl
    refine drops_of_decref hbefore (SocketStep.denoted_setEntry ..) rfl rfl hs hfree
      (aside_files u fun _ => rfl) rfl (fun _ => (Int.add_zero _).symm) fun h p j hj => ?_
    obtain ⟨rfl, rfl⟩ : p = s.owner u ∧ j = fd := by
      by_contra hne
      refine hj ((congrFun (congrFun h p) j).trans ?_)
      exact (s.setEntry_FIDT ..).trans (if_neg hne)
    exact ⟨rfl, getFCB_eq hf⟩

theorem drops_dup2 {oldfd newfd : Int} (hs : s.sysDup2 (s.owner u) oldfd newfd = some s')
    (hfree : s'.freedSCB k ≠ s.freedSCB k) : s.Drops (.dup2 u oldfd newfd) s' u k := by
  unfold sysDup2 at hs
  split at hs
  · cases hs
    exact absurd rfl hfree
  split at hs
  · cases hs
    exact absurd rfl hfree
  rename_i g hg
  simp only at hs
  split at hs
  · cases hs
    exact absurd rfl hfree
  obtain ⟨t, ht, rfl⟩ := Option.map_eq_some_iff.mp hs
  cases hentry : s.getFCB (s.owner u) newfd with
  | none =>
    rw [hentry] at ht
    exact absurd (Option.some.inj ht ▸ rfl) hfree
  | some g' =>
    rw [hentry] at ht
    have hbefore : Aside u s s := aside_files u fun _ => rfl
    refine drops_of_decref hbefore rfl rfl rfl ht hfree (aside_files u (t.increfFCB_stream g)) rfl
      (fun e => ?_) fun h p j hj => ?_
    · -- `oldfd` has one more fid.
      have hgains : s.gains (.dup2 u oldfd newfd) = some g := hg
      rw [hgains]
      refine (t.increfFCB_refcount g e).trans ?_
      by_cases heg : e = g
      · simp [heg]
      · simp [heg, Ne.symm heg]
    · obtain ⟨rfl, rfl⟩ : p = s.owner u ∧ j = newfd := by
        by_contra hne
        refine hj ((((t.increfFCB g).setEntry_FIDT ..).trans (if_neg hne)).trans ?_)
        exact congrFun (congrFun h p) j
      exact ⟨rfl, getFCB_eq hentry⟩

/-- **A step that frees a socket is a call of `socket_close`**, with nothing but file tables before
and after; and there, its FCB is released. -/
theorem drop_cases (hs : s.perform a = some s') (hfree : s'.freedSCB k ≠ s.freedSCB k) :
    ∃ u, closer a = some u ∧ s.Drops a s' u k := by
  rcases (socketStep hs).freed with hsame | ⟨u, -, hu, -⟩
  · exact absurd (congrFun hsame k) hfree
  refine ⟨u, hu, ?_⟩
  rcases perform_cases hs with ⟨q, rfl, -, -⟩ | ⟨v, data, m, rfl, -, -⟩ | ⟨v, rfl, -, hs⟩ |
    ⟨rfl, -⟩ | ⟨v, r, rfl, -, -⟩ | ⟨v, hv, -, -, hs⟩
  · exact absurd hu (by simp [closer])
  · exact absurd hu (by simp [closer])
  · obtain rfl := Option.some.inj hu
    unfold Streams.proceed at hs
    split at hs
    · exact drops_return hs hfree
    · split at hs
      · obtain ⟨t, ht, rfl⟩ := Option.map_eq_some_iff.mp hs
        exact drops_exit ht hfree
      · cases hs
        exact absurd rfl hfree
    · exact absurd hs (by simp)
  · exact absurd hu (by simp [closer])
  · exact absurd hu (by simp [closer])
  · cases a with
    | close w fd =>
      obtain rfl := Option.some.inj hu
      obtain rfl := Option.some.inj hv
      exact drops_close hs hfree
    | dup2 w oldfd newfd =>
      obtain rfl := Option.some.inj hu
      obtain rfl := Option.some.inj hv
      exact drops_dup2 hs hfree
    | proceed => exact absurd hv (by simp [caller])
    | _ => exact absurd hu (by simp [closer])

/-! ## What `ShutDown` reaches -/

/-- No pipe but those of `P` has changed, and nobody who sleeps in another one was woken. -/
structure Spared (P : Nat → Prop) (s s' : Streams) : Prop where
  pipe : ∀ i, ¬ P i → s'.pipe i = s.pipe i
  freedPipe : ∀ i, ¬ P i → s'.freedPipe i = s.freedPipe i
  pc : ∀ v, (∀ i, (s.pc v).pipe = some i → ¬ P i) → s'.pc v = s.pc v

variable {P : Nat → Prop}

theorem Spared.of_eq (hpipe : s'.pipe = s.pipe) (hfreed : s'.freedPipe = s.freedPipe)
    (hpc : s'.pc = s.pc) : Spared P s s' :=
  ⟨fun _ _ => by rw [hpipe], fun _ _ => by rw [hfreed], fun _ _ => by rw [hpc]⟩

theorem Spared.trans (h : Spared P s s') (h' : Spared P s' s'') : Spared P s s'' where
  pipe i hi := (h'.pipe i hi).trans (h.pipe i hi)
  freedPipe i hi := (h'.freedPipe i hi).trans (h.freedPipe i hi)
  pc v hv := by
    have hsame := h.pc v hv
    exact (h'.pc v (hsame ▸ hv)).trans hsame

theorem spared_access (k : Nat) : Spared P s (s.access k) := by
  unfold access
  split <;> exact .of_eq rfl rfl rfl

theorem spared_broadcastHasData {q : Nat} (hq : P q) : Spared P s (s.broadcastHasData q) :=
  ⟨fun _ _ => rfl, fun _ _ => rfl, fun _ hv =>
    StreamPc.wakeReader_of_ne fun he => hv q he hq⟩

theorem spared_broadcastHasSpace {q : Nat} (hq : P q) : Spared P s (s.broadcastHasSpace q) :=
  ⟨fun _ _ => rfl, fun _ _ => rfl, fun _ hv =>
    StreamPc.wakeWriter_of_ne fun he => hv q he hq⟩

theorem spared_setPipe {q : Nat} (hq : P q) (b : PipeCB) : Spared P s (s.setPipe q b) := by
  refine ⟨fun i hi => ?_, fun _ _ => rfl, fun _ _ => rfl⟩
  have hne : i ≠ q := fun he => hi (he ▸ hq)
  exact Function.update_of_ne hne ..

theorem spared_writerClose {q : Nat} (hq : P q) : Spared P s (s.writerClose q) := by
  unfold writerClose
  split
  · exact .of_eq rfl rfl rfl
  · exact (spared_setPipe hq _).trans (spared_broadcastHasData hq)

theorem spared_readerClose {q : Nat} (hq : P q) : Spared P s (s.readerClose q) := by
  unfold readerClose
  split
  · exact .of_eq rfl rfl rfl
  · have hclose := ((spared_setPipe (s := s) hq { s.pipe q with readerClosed := true }).trans
      (spared_broadcastHasSpace hq)).trans (spared_writerClose hq)
    refine ⟨hclose.pipe, fun i hi => ?_, hclose.pc⟩
    have hne : i ≠ q := fun he => hi (he ▸ hq)
    exact (Function.update_of_ne hne ..).trans (hclose.freedPipe i hi)

theorem spared_shutRead {j : Nat} (hk : ∀ i, (s.scb k).receive = some i → P i) :
    Spared P s (s.shutRead k j) := by
  unfold shutRead
  split
  · exact .of_eq rfl rfl rfl
  · rename_i q hq
    have hreceive : Spared P (s.readerClose q)
        ((s.readerClose q).modifySCB k fun b => { b with receive := none }) := .of_eq rfl rfl rfl
    have hclose := (spared_readerClose (hk q hq)).trans hreceive
    exact (hclose.trans (spared_access j)).trans (.of_eq rfl rfl rfl)

theorem spared_shutWrite (hk : ∀ i, (s.scb k).send = some i → P i) :
    Spared P s (s.shutWrite k) := by
  unfold shutWrite
  split
  · exact .of_eq rfl rfl rfl
  · rename_i q hq
    exact (spared_writerClose (hk q hq)).trans (.of_eq rfl rfl rfl)

/-- `ShutDown` reaches no pipes but those of the peer that the fid denotes. -/
theorem spared_shutDown {fd : Int} {how : ShutdownMode}
    (hP : ∀ k, denoted s.toFileTables p fd = some k → (s.scb k).type = .peer →
      (s.scb k).peer ≠ none → ∀ i, s.sockets.Ends k i → P i) :
    Spared P s (s.sysShutDown p fd how) := by
  unfold sysShutDown
  split
  · rename_i k hk
    have hden : denoted s.toFileTables p fd = some k := by rw [denoted, hk]; rfl
    have hacc : Spared P s (s.access k) := spared_access k
    have hscb : (s.access k).scb = s.scb := congrArg Sockets.scb (s.sockets_access k)
    simp only
    split
    · rename_i j htype hpeer
      rw [hscb] at htype hpeer
      have hends := hP k hden htype (by simp [hpeer])
      have hread : Spared P s (if how = .read ∨ how = .both then (s.access k).shutRead k j
          else s.access k) := by
        split
        · refine hacc.trans (spared_shutRead fun i hi => hends i (.inr ?_))
          rwa [hscb] at hi
        · exact hacc
      split
      · refine hread.trans (spared_shutWrite fun i hi => hends i (.inl ?_))
        split at hi
        · have hsend : (((s.access k).shutRead k j).sockets.scb k).send = some i := hi
          rw [sockets_shutRead, sockets_access] at hsend
          exact Sockets.eq_of_lost ((Sockets.shuts_shutRead s.sockets k j).send k) hsend
        · rwa [hscb] at hi
      · exact hread
    · exact hacc
  · exact .of_eq rfl rfl rfl

end Streams

namespace Sockets

variable {n n' : Sockets} {k i : Nat} {target : Option Nat}

theorem shutRead_scb (n : Sockets) (k j i : Nat) : (n.shutRead k j).scb i = { n.scb i with
    receive := if i = k then none else (n.scb i).receive
    send := if i = j ∧ (n.scb k).receive ≠ none then none else (n.scb i).send } := by
  unfold shutRead
  cases hr : (n.scb k).receive with
  | none =>
    by_cases hi : i = k
    · subst hi
      simp [← hr]
    · simp [hi]
  | some q =>
    by_cases hj : i = j
    · subst hj
      by_cases hi : i = k
      · subst hi
        simp [modifySCB]
      · simp [modifySCB, hi]
    · by_cases hi : i = k
      · subst hi
        simp [modifySCB, hj]
      · simp [modifySCB, hi, hj]

theorem shutWrite_scb (n : Sockets) (k i : Nat) : (n.shutWrite k).scb i = { n.scb i with
    send := if i = k then none else (n.scb i).send } := by
  unfold shutWrite
  cases hs : (n.scb k).send with
  | none =>
    by_cases hi : i = k
    · subst hi
      simp [← hs]
    · simp [hi]
  | some q =>
    by_cases hi : i = k
    · subst hi
      simp [modifySCB]
    · simp [modifySCB, hi]

/-- What `ShutDown` of both sides of `t`, whose peer is `j`, leaves of the SCB `i`. -/
theorem shutDown_scb {t j : Nat} (htype : (n.scb t).type = .peer) (hpeer : (n.scb t).peer = some j)
    (i : Nat) : (n.shutDown .both (some t)).scb i = { n.scb i with
      receive := if i = t then none else (n.scb i).receive
      send := if i = t then none else if i = j ∧ (n.scb t).receive ≠ none then none
        else (n.scb i).send } := by
  unfold shutDown
  simp only [htype, hpeer, or_true, if_true]
  rw [shutWrite_scb, shutRead_scb]

/-- An SCB is left alone if it has lost its pipes, or if the target does not lead to it. -/
theorem shutDown_keeps (h : ∀ t j, target = some t → (n.scb t).type = .peer →
      (n.scb t).peer = some j → (i = t → (n.scb i).receive = none ∧ (n.scb i).send = none) ∧
        (i = j → (n.scb t).receive ≠ none → (n.scb i).send = none)) :
    (n.shutDown .both target).scb i = n.scb i := by
  cases target with
  | none => rfl
  | some t =>
    by_cases htype : (n.scb t).type = .peer
    · cases hpeer : (n.scb t).peer with
      | none =>
        unfold shutDown
        simp only [htype, hpeer]
      | some j =>
        obtain ⟨ht, hj⟩ := h t j rfl htype hpeer
        have hr : (if i = t then none else (n.scb i).receive) = (n.scb i).receive := by
          split
          · exact (ht ‹_›).1.symm
          · rfl
        have hs : (if i = t then none else if i = j ∧ (n.scb t).receive ≠ none then none
            else (n.scb i).send) = (n.scb i).send := by
          split
          · exact (ht ‹_›).2.symm
          · split
            · rename_i hij
              exact (hj hij.1 hij.2).symm
            · rfl
        rw [shutDown_scb htype hpeer, hr, hs]
    · unfold shutDown
      simp only
      split
      · rename_i ht _
        exact absurd ht htype
      · rfl

/-- The close of a peer: `ShutDown` of the target, and its peer cannot read any more. -/
theorem peerClose_scb (htype : (n.scb k).type = .peer) (hc : n.close target k = some n') :
    ∃ j, (n.scb k).peer = some j ∧ ∀ i, n'.scb i =
      { (n.shutDown .both target).scb i with
        receive := if i = j then none else ((n.shutDown .both target).scb i).receive } := by
  unfold close at hc
  rw [htype] at hc
  obtain ⟨n₁, hn₁, rfl⟩ := Option.map_eq_some_iff.mp hc
  unfold peerClose at hn₁
  simp only at hn₁
  split at hn₁
  · exact absurd hn₁ (by simp)
  · rename_i j hj
    cases hn₁
    rw [(shuts_shutDown n .both target).scb k] at hj
    refine ⟨j, hj, fun i => ?_⟩
    simp only [freeSCB, modifySCB, Function.update_apply]
    split
    · rename_i he
      rw [he]
    · rfl

/-- A close leaves the ports and the queues of other sockets alone. -/
theorem close_elsewhere (hc : n.close target k = some n') :
    (∀ q, n.PortMap q ≠ some k → n'.PortMap q = n.PortMap q) ∧
      ∀ i, i ≠ k → n'.acceptors i = n.acceptors i := by
  unfold close at hc
  split at hc
  · cases hc
    exact ⟨fun _ _ => rfl, fun _ _ => rfl⟩
  · cases hc
    simp only [freeSCB, listenerClose]
    split
    · rename_i hentry
      refine ⟨fun q hq => ?_, fun i hi => ?_⟩
      · have hne : q ≠ (((n.modifySCB k fun b => { b with refcount := 0 }).broadcastReqs k).scb
            k).port := by
          rintro rfl
          exact hq hentry
        exact Function.update_of_ne hne ..
      · exact Function.update_of_ne hi ..
    · exact ⟨fun _ _ => rfl, fun i hi => Function.update_of_ne hi ..⟩
  · obtain ⟨n₁, hn₁, rfl⟩ := Option.map_eq_some_iff.mp hc
    unfold peerClose at hn₁
    have hs := (shuts_shutDown n .both target).eq
    simp only at hn₁
    split at hn₁
    · exact absurd hn₁ (by simp)
    · cases hn₁
      simp only [freeSCB, modifySCB]
      rw [hs]
      exact ⟨fun _ _ => rfl, fun _ _ => rfl⟩

/-- An SCB that is not closed keeps its type, its peer and all but its pipes. -/
theorem close_other (hc : n.close target k = some n') (hi : i ≠ k) : n'.scb i =
    { n.scb i with send := (n'.scb i).send, receive := (n'.scb i).receive } := by
  have hscb := close_scb hc i
  have hrefcount : (n'.scb i).refcount = (n.scb i).refcount := by
    unfold close at hc
    split at hc
    · cases hc
      rfl
    · cases hc
      simp only [freeSCB, listenerClose]
      split <;> simp [modifySCB, broadcastReqs, hi]
    · rename_i htype
      obtain ⟨j, -, hform⟩ := peerClose_scb htype (by rw [close, htype]; exact hc)
      rw [hform i, (shuts_shutDown n .both target).scb i]
  rw [hrefcount] at hscb
  exact hscb

end Sockets

namespace Streams

variable {s s' : Streams} {a : StreamAction} {u p k : Nat}

/-- The pipes and the sleepers that `socket_close` leaves alone. -/
theorem socketClose_spares {P : Nat → Prop} (hs : s.socketClose p k = some s')
    (hP : (s.scb k).type = .peer → ∀ t, denoted s.toFileTables p (s.scb k).fid = some t →
      (s.scb t).type = .peer → (s.scb t).peer ≠ none → ∀ i, s.sockets.Ends t i → P i) :
    (∀ i, ¬ P i → s'.pipe i = s.pipe i ∧ s'.freedPipe i = s.freedPipe i) ∧
      ∀ v, (∀ r, s.pc v ≠ .accepting k r) → (∀ i, (s.pc v).pipe = some i → ¬ P i) →
        s'.pc v = s.pc v := by
  have hacc : Spared P s (s.access k) := spared_access k
  have hscb : (s.access k).scb = s.scb := congrArg Sockets.scb (s.sockets_access k)
  have hpc : (s.access k).pc = s.pc := by
    unfold access
    split <;> rfl
  have hfinish : ∀ s₁ : Streams, Spared P s s₁ →
      (∀ i, ¬ P i → s₁.pipe i = s.pipe i ∧ s₁.freedPipe i = s.freedPipe i) ∧
        ∀ v, (∀ r, s.pc v ≠ .accepting k r) → (∀ i, (s.pc v).pipe = some i → ¬ P i) →
          s₁.pc v = s.pc v := fun s₁ h =>
    ⟨fun i hi => ⟨h.pipe i hi, h.freedPipe i hi⟩, fun v _ hv => h.pc v hv⟩
  unfold socketClose at hs
  simp only [hscb] at hs
  split at hs
  · cases hs
    exact hfinish _ hacc
  split at hs
  · cases hs
    exact hfinish _ (hacc.trans (.of_eq rfl rfl rfl))
  · -- A listener: the sleepers at its `reqs_cv` are woken.
    cases hs
    have hpipe : (((s.access k).listenerClose k).freeSCB k).pipe = (s.access k).pipe ∧
        (((s.access k).listenerClose k).freeSCB k).freedPipe = (s.access k).freedPipe ∧
        (((s.access k).listenerClose k).freeSCB k).pc =
          fun v => ((s.access k).pc v).wakeAcceptor k := by
      simp only [freeSCB, listenerClose]
      split <;> exact ⟨rfl, rfl, rfl⟩
    refine ⟨fun i hi => ?_, fun v hv _ => ?_⟩
    · rw [hpipe.1, hpipe.2.1]
      exact ⟨hacc.pipe i hi, hacc.freedPipe i hi⟩
    · rw [hpipe.2.2, hpc]
      change (s.pc v).wakeAcceptor k = s.pc v
      cases hpv : s.pc v with
      | accepting l r =>
        have hne : l ≠ k := by
          rintro rfl
          exact hv r hpv
        simp [StreamPc.wakeAcceptor, hne]
      | _ => rfl
  · rename_i htype
    obtain ⟨s₁, hs₁, rfl⟩ := Option.map_eq_some_iff.mp hs
    unfold peerClose at hs₁
    have hshut : Spared P (s.access k)
        ((s.access k).sysShutDown p ((s.access k).scb k).fid .both) := by
      refine spared_shutDown fun t ht => ?_
      rw [access_toFileTables, hscb] at ht
      rw [hscb, sockets_access]
      exact hP htype t ht
    simp only at hs₁
    split at hs₁
    · exact absurd hs₁ (by simp)
    · cases hs₁
      exact hfinish _ (((hacc.trans hshut).trans (spared_access _)).trans (.of_eq rfl rfl rfl))

/-- The socket `k`, or one whose peer it is. -/
def Mine (s : Streams) (k i : Nat) : Prop := i = k ∨ (s.scb i).peer = some k

instance (s : Streams) (k i : Nat) : Decidable (s.Mine k i) := inferInstanceAs (Decidable (_ ∨ _))

/-- From `s` to `s'`, the thread `u` has changed nothing but the socket `k`, the ends of those whose
peer it is, the pipes between them, and the ports of `k`; besides them, only the FCB of `k`, the fids
that denoted it, what `Dup2` gives, and itself. -/
structure Confined (s : Streams) (a : StreamAction) (s' : Streams) (u k : Nat) : Prop where
  scb : ∀ i, ¬ s.Mine k i → s'.scb i = s.scb i
  ends : ∀ i, i ≠ k →
    s'.scb i = { s.scb i with send := (s'.scb i).send, receive := (s'.scb i).receive }
  freedSCB : ∀ i, i ≠ k → s'.freedSCB i = s.freedSCB i
  pipe : ∀ q, (∀ i, s.Mine k i → ¬ s.sockets.Ends i q) →
    s'.pipe q = s.pipe q ∧ s'.freedPipe q = s.freedPipe q
  PortMap : ∀ q, s.PortMap q ≠ some k → s'.PortMap q = s.PortMap q
  acceptors : ∀ i, i ≠ k → s'.acceptors i = s.acceptors i
  req : s'.req = s.req
  stream : ∀ g, (s'.FT g).stream = (s.FT g).stream
  files : s.Released a s' u k
  pc : ∀ v, v ≠ u → (∀ r, s.pc v ≠ .accepting k r) →
    (∀ i q, s.Mine k i → s.sockets.Ends i q → (s.pc v).pipe ≠ some q) → s'.pc v = s.pc v

/-- What the `fid` of a PEER denotes is its own, or has no pipes; and so is its peer, or has none
that the close would take away. -/
def Spares (s : Streams) (a : StreamAction) (k : Nat) : Prop :=
  (s.scb k).type = .peer →
    (∀ t ∈ s.found a k, ¬ s.Mine k t → (s.scb t).type = .peer → (s.scb t).peer ≠ none →
      (s.scb t).receive = none ∧ (s.scb t).send = none) ∧
    ∀ j ∈ (s.scb k).peer, ¬ s.Mine k j → (s.scb j).receive = none ∧
      (s.found a k = some k → (s.scb k).receive ≠ none → (s.scb j).send = none)

instance (s : Streams) (a : StreamAction) (k : Nat) : Decidable (s.Spares a k) := by
  unfold Spares
  infer_instance

/-- The SCB of a socket that is not of `k`. -/
theorem close_scb_spared {n n' : Sockets} (hn : n.scb = s.scb)
    (hc : n.close (s.found a k) k = some n') (hspares : s.Spares a k) {i : Nat}
    (hi : ¬ s.Mine k i) : n'.scb i = s.scb i := by
  have hik : i ≠ k := fun he => hi (.inl he)
  cases htype : (s.scb k).type with
  | peer =>
    obtain ⟨hfound, hpeer⟩ := hspares htype
    obtain ⟨j, hj, hscb⟩ := Sockets.peerClose_scb (by rw [hn]; exact htype) hc
    rw [hn] at hj
    have hkeep : (n.shutDown .both (s.found a k)).scb i = n.scb i := by
      refine Sockets.shutDown_keeps fun t j' ht httype htpeer => ?_
      rw [hn] at httype htpeer ⊢
      by_cases hmine : s.Mine k t
      · refine ⟨fun he => absurd (he ▸ hmine) hi, fun he hr => ?_⟩
        subst he
        rcases hmine with rfl | hmine
        · exact (hpeer i htpeer hi).2 ht hr
        · -- The peer of such a socket is `k`.
          exact absurd (Option.some.inj (htpeer.symm.trans hmine)) hik
      · obtain ⟨hr, hs⟩ := hfound t ht hmine httype (by simp [htpeer])
        refine ⟨fun he => ?_, fun _ hr' => absurd hr hr'⟩
        rw [he]
        exact ⟨hr, hs⟩
    rw [hscb i, hkeep, hn]
    split
    · rename_i he
      subst he
      rw [← (hpeer i hj hi).1]
    · rfl
  | unbound =>
    unfold Sockets.close at hc
    rw [hn, htype] at hc
    cases hc
    exact congrFun hn i
  | listener =>
    unfold Sockets.close at hc
    rw [hn, htype] at hc
    cases hc
    simp only [Sockets.freeSCB, Sockets.listenerClose]
    split <;> simp [Sockets.modifySCB, Sockets.broadcastReqs, hik, hn]

/-- Where the close reaches a socket that is not of `k`, the socket loses a pipe. -/
theorem spares_of_scb {n n' : Sockets} (hn : n.scb = s.scb)
    (hc : n.close (s.found a k) k = some n') (hscb : ∀ i, ¬ s.Mine k i → n'.scb i = s.scb i) :
    s.Spares a k := by
  intro htype
  obtain ⟨j, hj, hform⟩ := Sockets.peerClose_scb (by rw [hn]; exact htype) hc
  rw [hn] at hj
  refine ⟨fun t ht hmine httype htpeer => ?_, fun j' hj' hmine => ?_⟩
  · obtain ⟨j', hj'⟩ := Option.ne_none_iff_exists'.mp htpeer
    have hsame := hscb t hmine
    have ht : s.found a k = some t := ht
    rw [hform t, ht, Sockets.shutDown_scb (by rw [hn]; exact httype) (by rw [hn]; exact hj')]
      at hsame
    refine ⟨?_, ?_⟩
    · rw [← hsame]
      simp
    · rw [← hsame]
      simp
  · obtain rfl := Option.some.inj (hj.symm.trans hj')
    have hjk : j ≠ k := fun he => hmine (.inl he)
    have hsame := hscb j hmine
    rw [hform j] at hsame
    refine ⟨?_, fun hfound hr => ?_⟩
    · rw [← hsame]
      simp
    · rw [hfound, Sockets.shutDown_scb (by rw [hn]; exact htype) (by rw [hn]; exact hj), hn] at hsame
      rw [← hsame]
      simp [hr]

end Streams

end TinyOS
