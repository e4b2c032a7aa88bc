import Mathlib
import TinyOS.Stream.Hangup
import TinyOS.Stream.Holding

/-!
# No freed pipe is pointed at

`reader_close` frees the PipeCB, whoever else still has it. **Where a pipe of `Pipe` loses its read
end last, and no pipe loses its read end while a thread is blocked in it, every pipe that a stream,
a socket or a thread points at is live, and each pipe is freed once, when both of its ends are
closed** (`pipes_live`). A read end that is closed first leaves the write end with a freed pipe
(`not_pipes_live`).

The pipes of sockets need no condition on the order: `sys_ShutDown` takes the freed pipe out of both
sockets. That these are all the sockets that have it is an invariant of its own (`Wired`).
-/

set_option autoImplicit false

namespace TinyOS

open Transition

namespace Sockets

/-- Each pipe is the receiving end of one socket and the sending end of its peer, at most. -/
structure Wired (n : Sockets) : Prop where
  receive : ∀ a c q, (n.scb a).receive = some q → (n.scb c).receive = some q → a = c
  send : ∀ a c q, (n.scb a).send = some q → (n.scb c).send = some q → a = c
  peer : ∀ a c q, (n.scb a).receive = some q → (n.scb c).send = some q →
    (n.scb a).peer = some c

variable {n n' : Sockets} {k l j r : Nat} {how : ShutdownMode} {target : Option Nat}

/-- Sockets lose ends, if anything. -/
theorem Wired.keep (h : n.Wired) (hreceive : ∀ a q, (n'.scb a).receive = some q →
      (n.scb a).receive = some q ∧ (n'.scb a).peer = (n.scb a).peer)
    (hsend : ∀ a q, (n'.scb a).send = some q → (n.scb a).send = some q) : n'.Wired := by
  constructor
  case receive => exact fun a c q ha hc => h.receive a c q (hreceive a q ha).1 (hreceive c q hc).1
  case send => exact fun a c q ha hc => h.send a c q (hsend a q ha) (hsend c q hc)
  case peer =>
    intro a c q ha hc
    obtain ⟨hold, hpeer⟩ := hreceive a q ha
    rw [hpeer]
    exact h.peer a c q hold (hsend c q hc)

theorem Wired.shuts (h : n.Wired) (hs : Shuts n n') : n'.Wired := by
  refine h.keep (fun a q ha => ⟨eq_of_lost (hs.receive a) ha, ?_⟩) fun a q ha =>
    eq_of_lost (hs.send a) ha
  rw [hs.scb a]

theorem Wired.create (h : n.Wired) (ha : n.Allotted) (f : Nat) (port fid : Int) :
    (n.create f port fid).Wired := by
  have hblank := (ha.blank n.scbs (Nat.le_refl _)).1
  refine h.keep (fun a q ha => ?_) fun a q ha => ?_ <;>
    simp only [Sockets.create, Function.update_apply] at ha ⊢
  · split at ha
    · exact absurd ha (by simp)
    · rename_i hne
      rw [if_neg hne]
      exact ⟨ha, rfl⟩
  · split at ha
    · exact absurd ha (by simp)
    · exact ha

theorem Wired.listen (h : n.Wired) : (n.listen k).Wired := by
  refine h.keep (fun a q ha => ?_) fun a q ha => ?_ <;>
    simp only [Sockets.listen, Sockets.modifySCB, Function.update_apply] at ha ⊢
  · split at ha
    · exact absurd ha (by simp)
    · rename_i hne
      rw [if_neg hne]
      exact ⟨ha, rfl⟩
  · split at ha
    · exact absurd ha (by simp)
    · exact ha

/-- Two sockets are joined by new pipes. -/
theorem Wired.connectPeers (h : n.Wired) (ha : n.Allotted) (hkj : k ≠ j) (m : Mallocs) :
    (n.connectPeers k j r m).Wired := by
  have hsend := ha.send
  have hreceive := ha.receive
  have hnew : ∀ q, n.sendPipe m = some q ∨ n.receivePipe m = some q → n.pipes ≤ q := by
    intro q hq
    unfold sendPipe receivePipe at hq
    grind
  have hdiff : ∀ q, n.sendPipe m = some q → n.receivePipe m ≠ some q := by
    intro q hq hq'
    unfold sendPipe at hq
    unfold receivePipe at hq'
    grind
  rw [connectPeers_eq n hkj]
  -- An end at `k` or `j` is that of a new pipe, which nobody else has, and the other ends are old.
  constructor <;> simp only [Function.update_apply]
  case receive => have := h.receive; grind
  case send => have := h.send; grind
  case peer => have := h.peer; grind

theorem Wired.popRequest (h : n.Wired) (l r : Nat) (rs : List Nat) :
    (n.popRequest l r rs).Wired := by
  refine h.keep (fun a q ha => ?_) fun a q ha => ?_ <;> rw [popRequest_scb] at ha
  · rw [popRequest_scb]
    exact ⟨ha, rfl⟩
  · exact ha

/-! ## Which pipes lose an end -/

/-- The pipe whose read end `sys_ShutDown` of what a fid denotes closes. -/
def shutsRead (n : Sockets) (how : ShutdownMode) : Option Nat → Option Nat
  | none => none
  | some k =>
    match (n.scb k).type, (n.scb k).peer with
    | .peer, some _ => if how = .read ∨ how = .both then (n.scb k).receive else none
    | _, _ => none

/-- And the one whose write end it closes. -/
def shutsWrite (n : Sockets) (how : ShutdownMode) : Option Nat → Option Nat
  | none => none
  | some k =>
    match (n.scb k).type, (n.scb k).peer with
    | .peer, some _ => if how = .write ∨ how = .both then (n.scb k).send else none
    | _, _ => none

theorem Shuts.ends (hs : Shuts n n') {q : Nat} (hk : n'.Ends k q) : n.Ends k q := by
  rcases hk with hk | hk
  · exact .inl (eq_of_lost (hs.send k) hk)
  · exact .inr (eq_of_lost (hs.receive k) hk)

/-- **The pipe that `ShutDown` frees is no socket's any more.** -/
theorem Wired.shutDown_ends (h : n.Wired) {q : Nat} (hk : (n.shutDown how target).Ends k q) :
    n.shutsRead how target ≠ some q := by
  have hold : n.Ends k q := (shuts_shutDown n how target).ends hk
  intro hq
  cases target with
  | none => exact absurd hq (by simp [shutsRead])
  | some t =>
    simp only [shutsRead] at hq
    split at hq
    · rename_i j htype hj
      obtain ⟨hread, hq⟩ := Option.ite_none_right_eq_some.mp hq
      have hshut : (n.shutDown how (some t)).Ends k q → (n.shutRead t j).Ends k q := by
        intro hk
        unfold Sockets.shutDown at hk
        simp only [htype, hj, if_pos hread] at hk
        split at hk
        · exact (shuts_shutWrite _ t).ends hk
        · exact hk
      have hleft := hshut hk
      simp only [Ends, shutRead_scb] at hleft
      rcases hleft with hsend | hreceive
      · split at hsend
        · exact absurd hsend (by simp)
        · rename_i hne
          -- Its peer is the one that sent into it, and has lost it.
          have hpeer := h.peer t k q hq hsend
          exact hne ⟨Option.some.inj (hpeer.symm.trans hj), by simp [hq]⟩
      · split at hreceive
        · exact absurd hreceive (by simp)
        · rename_i hne
          exact hne (h.receive k t q hreceive hq)
    · exact absurd hq (by simp)

/-- A close takes ends away, if anything. -/
theorem close_erases (hc : n.close target j = some n') (a : Nat) :
    ((n'.scb a).send = (n.scb a).send ∨ (n'.scb a).send = none) ∧
      ((n'.scb a).receive = (n.scb a).receive ∨ (n'.scb a).receive = none) := by
  have hs := shuts_shutDown n .both target
  by_cases htype : (n.scb j).type = .peer
  · obtain ⟨i, -, hscb⟩ := peerClose_scb htype hc
    rw [hscb]
    refine ⟨hs.send a, ?_⟩
    simp only
    split
    · exact .inr rfl
    · exact hs.receive a
  · unfold Sockets.close at hc
    split at hc
    · cases hc
      exact ⟨.inl rfl, .inl rfl⟩
    · cases hc
      have hscb : ((n.listenerClose j).freeSCB j).scb =
          Function.update n.scb j { n.scb j with refcount := 0 } := by
        unfold Sockets.listenerClose
        simp only
        split <;> rfl
      simp only [hscb, Function.update_apply]
      split
      · rename_i he
        exact ⟨.inl (he ▸ rfl), .inl (he ▸ rfl)⟩
      · exact ⟨.inl rfl, .inl rfl⟩
    · exact absurd ‹_› htype

theorem close_ends {q : Nat} (hc : n.close target j = some n') (hk : n'.Ends k q) :
    n.Ends k q := by
  obtain ⟨hsend, hreceive⟩ := close_erases hc k
  rcases hk with hk | hk
  · exact .inl (eq_of_lost hsend hk)
  · exact .inr (eq_of_lost hreceive hk)

/-- And the close of a peer those that `ShutDown` takes. -/
theorem peerClose_ends {q : Nat} (hc : n.close target j = some n') (hj : (n.scb j).type = .peer)
    (hk : n'.Ends k q) : (n.shutDown .both target).Ends k q := by
  obtain ⟨i, -, hscb⟩ := peerClose_scb hj hc
  simp only [Ends, hscb] at hk
  rcases hk with hk | hk
  · exact .inl hk
  · split at hk
    · exact absurd hk (by simp)
    · exact .inr hk

theorem Wired.close (h : n.Wired) (hc : n.close target k = some n') : n'.Wired := by
  refine h.keep (fun a q ha => ⟨eq_of_lost (close_erases hc a).2 ha, ?_⟩) fun a q ha =>
    eq_of_lost (close_erases hc a).1 ha
  rw [close_scb hc]

/-- An `Accept` joins the two peers by new pipes. -/
theorem serve_ends {u f i q : Nat} {rs : List Nat} {port fid : Int} {m : Mallocs}
    (hr : (n.req r).socket < n.scbs) (hi : (n.serve u l r rs f port fid m).Ends i q) :
    n.Ends i q ∨ n.pipes ≤ q := by
  have hnew : ∀ n' : Sockets, n'.pipes = n.pipes → n'.sendPipe m = some q ∨
      n'.receivePipe m = some q → n.pipes ≤ q := by
    intro n' hpipes hq
    unfold sendPipe receivePipe at hq
    grind
  by_cases hboth : i = (n.req r).socket ∨ i = n.scbs
  · refine .inr (hnew (((n.goto u .busy).popRequest l r rs).create f port fid) rfl ?_)
    unfold Ends at hi
    rw [serve, connectPeers_eq _ (Nat.ne_of_gt hr)] at hi
    rcases hboth with rfl | rfl
    · simp only [Function.update_self] at hi
      exact hi.symm
    · simp only [Function.update_of_ne (Nat.ne_of_gt hr), Function.update_self] at hi
      exact hi
  · obtain ⟨hir, his⟩ := not_or.mp hboth
    refine .inl ?_
    unfold Ends at hi ⊢
    rwa [serve_scb hr hir his] at hi

theorem exists_ends_of_shutsRead {q : Nat} (hq : n.shutsRead how target = some q) :
    ∃ k, n.Ends k q := by
  cases target with
  | none => exact absurd hq (by simp [shutsRead])
  | some k =>
    simp only [shutsRead] at hq
    split at hq
    · exact ⟨k, .inr (Option.ite_none_right_eq_some.mp hq).2⟩
    · exact absurd hq (by simp)

theorem exists_ends_of_shutsWrite {q : Nat} (hq : n.shutsWrite how target = some q) :
    ∃ k, n.Ends k q := by
  cases target with
  | none => exact absurd hq (by simp [shutsWrite])
  | some k =>
    simp only [shutsWrite] at hq
    split at hq
    · exact ⟨k, .inl (Option.ite_none_right_eq_some.mp hq).2⟩
    · exact absurd hq (by simp)

end Sockets

namespace Streams

variable {s s' s'' : Streams} {a : StreamAction} {n : Sockets} {u p f k q : Nat}

theorem SocketStep.wired (h : s.sockets.Wired) (ha : s.sockets.Allotted) (hs : SocketStep s a n) :
    n.Wired := by
  have hsame : ∀ n : Sockets, n.scb = s.scb → n.Wired := by
    intro n hscb
    refine h.keep (fun a q ha => ?_) fun a q ha => ?_ <;> rw [hscb] at ha
    · rw [hscb]
      exact ⟨ha, rfl⟩
    · exact ha
  cases hs with
  | quiet => exact h
  | forget | pipe | sleep | leave | timeout | spawn => exact hsame _ rfl
  | create f port fid _ => exact h.create ha f port fid
  | listen => exact h.listen
  | @refuse u l r m rs _ _ _ _ =>
    have hpop := (hsame (s.sockets.goto u .busy) rfl).popRequest l r rs
    exact hpop.keep (fun _ _ ha => ⟨ha, rfl⟩) fun _ _ => id
  | @serve u l r m rs f fid _ hu hq _ =>
    have hallot := (ha.goto_busy (pops_ne_unborn hu)).popRequest hq
    have hpop := (hsame (s.sockets.goto u .busy) rfl).popRequest l r rs
    have hr : (s.req r).socket < s.scbs := ha.req r (ha.queue l r (SCB.mem_queue hq))
    exact (hpop.create hallot f (s.scb l).port fid).connectPeers (hallot.create f _ fid)
      (by omega) m
  | request =>
    refine h.keep (fun a q ha => ?_) fun a q ha => ?_ <;> rw [Sockets.request_scb] at ha
    · rw [Sockets.request_scb]
      exact ⟨ha, rfl⟩
    · exact ha
  | answer =>
    unfold Sockets.answer
    simp only
    split <;> exact hsame _ rfl
  | shut => exact h.shuts (Sockets.shuts_shutDown ..)
  | close _ _ _ _ hc => exact h.close hc

theorem wired {C : Streams → StreamAction → Prop} (hr : streamSys.ReachIf C s) :
    s.sockets.Wired := by
  induction hr with
  | init hi =>
    obtain ⟨serialPorts, rfl⟩ := hi
    constructor <;> simp [sockets, Streams.initial]
  | step hr _ hs ih => exact (socketStep hs).wired ih (allotted hr)

/-! ## What a step does to the pipes -/

/-- A pipe was freed once if its read end is closed, and then its write end is closed as well. -/
structure FreedOnce (s : Streams) : Prop where
  freed : ∀ q, s.freedPipe q = if (s.pipe q).readerClosed then 1 else 0
  both : ∀ q, (s.pipe q).readerClosed = true → (s.pipe q).writerClosed = true
  fresh : ∀ q, s.pipes ≤ q → (s.pipe q).readerClosed = false ∧ (s.pipe q).writerClosed = false

/-- The read ends of the pipes `R` may be closed, and the write ends of these and of `W`, and
threads go to sleep in the pipes `I` only. -/
structure Turns (R W I : Nat → Prop) (s s' : Streams) : Prop where
  pipes : s.pipes ≤ s'.pipes
  reader : ∀ q, (s'.pipe q).readerClosed = true → (s.pipe q).readerClosed = true ∨ R q
  writer : ∀ q, (s'.pipe q).writerClosed = true → (s.pipe q).writerClosed = true ∨ R q ∨ W q
  inside : ∀ u q, (s'.pc u).pipe = some q → (s.pc u).pipe = some q ∨ I q
  once : (∀ q, R q ∨ W q → q < s.pipes) → s.FreedOnce → s'.FreedOnce

variable {R W I R' W' I' : Nat → Prop}

theorem Turns.of_eq (hpipe : s'.pipe = s.pipe) (hfreed : s'.freedPipe = s.freedPipe)
    (hpipes : s'.pipes = s.pipes) (hpc : ∀ u, (s'.pc u).pipe = (s.pc u).pipe) :
    Turns R W I s s' := by
  constructor
  case pipes => exact hpipes.ge
  case reader => exact fun q hq => .inl (hpipe ▸ hq)
  case writer => exact fun q hq => .inl (hpipe ▸ hq)
  case inside => exact fun u q hu => .inl (hpc u ▸ hu)
  case once =>
    intro _ h
    constructor <;> rw [hpipe]
    case freed => exact hfreed ▸ h.freed
    case both => exact h.both
    case fresh => exact hpipes ▸ h.fresh

@[refl] theorem Turns.refl (s : Streams) : Turns R W I s s := .of_eq rfl rfl rfl fun _ => rfl

theorem Turns.trans (h : Turns R W I s s') (h' : Turns R W I s' s'') : Turns R W I s s'' := by
  constructor
  case pipes => exact h.pipes.trans h'.pipes
  case reader => exact fun q hq => (h'.reader q hq).elim (h.reader q) .inr
  case writer => exact fun q hq => (h'.writer q hq).elim (h.writer q) .inr
  case inside => exact fun u q hu => (h'.inside u q hu).elim (h.inside u q) .inr
  case once =>
    intro hlt hs
    exact h'.once (fun q hq => Nat.lt_of_lt_of_le (hlt q hq) h.pipes) (h.once hlt hs)

theorem Turns.mono (h : Turns R W I s s') (hR : ∀ q, R q → R' q) (hW : ∀ q, W q → W' q)
    (hI : ∀ q, I q → I' q) : Turns R' W' I' s s' := by
  constructor
  case pipes => exact h.pipes
  case reader => exact fun q hq => (h.reader q hq).imp_right (hR q)
  case writer => exact fun q hq => (h.writer q hq).imp_right (Or.imp (hR q) (hW q))
  case inside => exact fun u q hu => (h.inside u q hu).imp_right (hI q)
  case once => exact fun hlt => h.once fun q hq => hlt q (hq.imp (hR q) (hW q))

theorem Turns.ite {c : Prop} [Decidable c] (h : Turns R W I s s') :
    Turns R W I s (if c then s' else s) := by
  split
  · exact h
  · rfl

theorem turns_access (k : Nat) : Turns R W I s (s.access k) := by
  unfold access
  split <;> exact .of_eq rfl rfl rfl fun _ => rfl

/-- A thread goes on, or to sleep in a pipe of `I`. -/
theorem turns_goto {pc : StreamPc} (hpc : ∀ q, pc.pipe = some q → (s.pc u).pipe = some q ∨ I q) :
    Turns R W I s (s.goto u pc) := by
  refine ⟨Nat.le_refl _, fun _ => .inl, fun _ => .inl, fun v q hv => ?_,
    fun _ h => ⟨h.freed, h.both, h.fresh⟩⟩
  simp only [goto, Function.update_apply] at hv
  split at hv
  · rename_i he
    exact he ▸ hpc q hv
  · exact .inl hv

/-- Bytes come or go. -/
theorem turns_setPipe {b : PipeCB} (hreader : b.readerClosed = (s.pipe q).readerClosed)
    (hwriter : b.writerClosed = (s.pipe q).writerClosed) : Turns R W I s (s.setPipe q b) := by
  have hr : ∀ i, ((s.setPipe q b).pipe i).readerClosed = (s.pipe i).readerClosed := fun i => by
    simp only [setPipe, Function.update_apply]
    split
    · rename_i he
      rw [he, hreader]
    · rfl
  have hw : ∀ i, ((s.setPipe q b).pipe i).writerClosed = (s.pipe i).writerClosed := fun i => by
    simp only [setPipe, Function.update_apply]
    split
    · rename_i he
      rw [he, hwriter]
    · rfl
  constructor
  case pipes => exact Nat.le_refl _
  case reader => exact fun i hi => .inl (hr i ▸ hi)
  case writer => exact fun i hi => .inl (hw i ▸ hi)
  case inside => exact fun _ _ => .inl
  case once =>
    intro _ h
    constructor <;> simp only [hr, hw]
    case freed => exact h.freed
    case both => exact h.both
    case fresh => exact h.fresh

theorem turns_broadcastHasData (q : Nat) : Turns R W I s (s.broadcastHasData q) :=
  .of_eq rfl rfl rfl fun _ => pipe_wakeReader ..

theorem turns_broadcastHasSpace (q : Nat) : Turns R W I s (s.broadcastHasSpace q) :=
  .of_eq rfl rfl rfl fun _ => pipe_wakeWriter ..

/-- The flag of the write end is set. -/
theorem turns_setWriter (hq : R q ∨ W q) :
    Turns R W I s (s.setPipe q { s.pipe q with writerClosed := true }) := by
  have hr : ∀ i, ((s.setPipe q { s.pipe q with writerClosed := true }).pipe i).readerClosed =
      (s.pipe i).readerClosed := fun i => by
    simp only [setPipe, Function.update_apply]
    split
    · rename_i he
      rw [he]
    · rfl
  have hw : ∀ i, ((s.setPipe q { s.pipe q with writerClosed := true }).pipe i).writerClosed =
      (decide (i = q) || (s.pipe i).writerClosed) := fun i => by
    simp only [setPipe, Function.update_apply]
    split <;> simp [*]
  constructor
  case pipes => exact Nat.le_refl _
  case reader => exact fun i hi => .inl (hr i ▸ hi)
  case writer =>
    intro i hi
    rw [hw, Bool.or_eq_true, decide_eq_true_eq] at hi
    rcases hi with rfl | hi
    · exact .inr hq
    · exact .inl hi
  case inside => exact fun _ _ => .inl
  case once =>
    intro hlt h
    constructor <;> simp only [hr, hw]
    case freed => exact h.freed
    case both => exact fun i hi => by simp [h.both i hi]
    case fresh =>
      intro i hi
      have hne : i ≠ q := fun he => absurd (hlt q hq) (Nat.not_lt_of_le (he ▸ hi))
      simpa [hne] using h.fresh i hi

theorem turns_writerClose (hq : R q ∨ W q) : Turns R W I s (s.writerClose q) := by
  unfold writerClose
  split
  · rfl
  · exact (turns_setWriter hq).trans (turns_broadcastHasData q)

/-- `reader_close` closes both ends, and frees the pipe. -/
theorem readerClose_pipe (hq : (s.pipe q).readerClosed = false) :
    (s.readerClose q).pipe =
        Function.update s.pipe q { s.pipe q with readerClosed := true, writerClosed := true } ∧
      (s.readerClose q).freedPipe = Function.update s.freedPipe q (s.freedPipe q + 1) ∧
      (s.readerClose q).pipes = s.pipes ∧
      ∀ u, ((s.readerClose q).pc u).pipe = (s.pc u).pipe := by
  unfold readerClose writerClose
  simp only [hq, Bool.false_eq_true, if_false, broadcastHasSpace, setPipe, Function.update_self]
  -- Was the write end closed already?
  split
  · rename_i hw
    refine ⟨?_, rfl, rfl, fun _ => pipe_wakeWriter ..⟩
    rw [hw]
  · refine ⟨?_, rfl, rfl, fun u => ?_⟩
    · simp only [broadcastHasData, Function.update_idem]
    · exact (pipe_wakeReader ..).trans (pipe_wakeWriter ..)

theorem turns_readerClose (hq : R q) : Turns R W I s (s.readerClose q) := by
  by_cases hclosed : (s.pipe q).readerClosed = true
  · rw [readerClose, if_pos hclosed]
  · obtain ⟨hpipe, hfreed, hpipes, hpc⟩ := readerClose_pipe (Bool.not_eq_true _ ▸ hclosed)
    have hr : ∀ i, ((s.readerClose q).pipe i).readerClosed =
        (decide (i = q) || (s.pipe i).readerClosed) := fun i => by
      rw [hpipe, Function.update_apply]
      split <;> simp [*]
    have hw : ∀ i, ((s.readerClose q).pipe i).writerClosed =
        (decide (i = q) || (s.pipe i).writerClosed) := fun i => by
      rw [hpipe, Function.update_apply]
      split <;> simp [*]
    constructor
    case pipes => exact hpipes.ge
    case reader =>
      intro i hi
      rw [hr, Bool.or_eq_true, decide_eq_true_eq] at hi
      rcases hi with rfl | hi
      · exact .inr hq
      · exact .inl hi
    case writer =>
      intro i hi
      rw [hw, Bool.or_eq_true, decide_eq_true_eq] at hi
      rcases hi with rfl | hi
      · exact .inr (.inl hq)
      · exact .inl hi
    case inside => exact fun u i hu => .inl (hpc u ▸ hu)
    case once =>
      intro hlt h
      constructor <;> simp only [hr, hw, hpipes]
      case freed =>
        intro i
        rw [hfreed, Function.update_apply]
        split
        · have hold := h.freed q
          rw [if_neg hclosed] at hold
          simp [*]
        · simpa [*] using h.freed i
      case both =>
        intro i hi
        rw [Bool.or_eq_true] at hi ⊢
        exact hi.imp_right (h.both i)
      case fresh =>
        intro i hi
        have hne : i ≠ q := fun he => absurd (hlt q (.inl hq)) (Nat.not_lt_of_le (he ▸ hi))
        simpa [hne] using h.fresh i hi

theorem turns_newPipe (malloc : Bool) : Turns R W I s (s.newPipe malloc).2 := by
  unfold newPipe
  split
  case isFalse => rfl
  have hpipe : ∀ i, Function.update s.pipe s.pipes getPipe i =
      if i = s.pipes then getPipe else s.pipe i := Function.update_apply s.pipe s.pipes getPipe
  constructor
  case pipes => exact Nat.le_succ _
  case reader =>
    intro i hi
    simp only [setPipe, hpipe] at hi
    split at hi
    · exact absurd hi (by simp [getPipe])
    · exact .inl hi
  case writer =>
    intro i hi
    simp only [setPipe, hpipe] at hi
    split at hi
    · exact absurd hi (by simp [getPipe])
    · exact .inl hi
  case inside => exact fun _ _ => .inl
  case once =>
    intro _ h
    have hopen := (h.fresh s.pipes (Nat.le_refl _)).1
    constructor <;> intro i <;> simp only [setPipe, hpipe]
    case freed =>
      rw [h.freed i]
      by_cases hi : i = s.pipes
      · rw [if_pos hi, hi, hopen]
        rfl
      · rw [if_neg hi]
    case both =>
      split
      · simp [getPipe]
      · exact h.both i
    case fresh =>
      intro hi
      rw [if_neg (by omega)]
      exact h.fresh i (by omega)

/-! ## `ShutDown` and `Close` -/

theorem turns_shutRead (hR : ∀ q, (s.scb k).receive = some q → R q) (j : Nat) :
    Turns R W I s (s.shutRead k j) := by
  unfold shutRead
  split
  · rfl
  · rename_i q hq
    have hclose : Turns R W I s (s.readerClose q) := turns_readerClose (hR q hq)
    have hreceive : Turns R W I (s.readerClose q)
        ((s.readerClose q).modifySCB k fun b => { b with receive := none }) :=
      .of_eq rfl rfl rfl fun _ => rfl
    exact ((hclose.trans hreceive).trans (turns_access j)).trans (.of_eq rfl rfl rfl fun _ => rfl)

theorem turns_shutWrite (hW : ∀ q, (s.scb k).send = some q → W q) :
    Turns R W I s (s.shutWrite k) := by
  unfold shutWrite
  split
  · rfl
  · rename_i q hq
    exact (turns_writerClose (.inr (hW q hq))).trans (.of_eq rfl rfl rfl fun _ => rfl)

theorem turns_sysShutDown {fd : Int} {how : ShutdownMode}
    (hR : ∀ q, s.sockets.shutsRead how (denoted s.toFileTables p fd) = some q → R q)
    (hW : ∀ q, s.sockets.shutsWrite how (denoted s.toFileTables p fd) = some q → W q) :
    Turns R W I s (s.sysShutDown p fd how) := by
  unfold sysShutDown
  split
  · rename_i k hk
    have hden : denoted s.toFileTables p fd = some k := by rw [denoted, hk]; rfl
    have hscb : (s.access k).scb = s.scb := congrArg Sockets.scb (s.sockets_access k)
    have hacc : Turns R W I s (s.access k) := turns_access k
    rw [hden] at hR hW
    simp only [hscb]
    split
    · rename_i j htype hpeer
      have hsocketType : (s.sockets.scb k).type = .peer := htype
      have hsocketPeer : (s.sockets.scb k).peer = some j := hpeer
      simp only [Sockets.shutsRead, Sockets.shutsWrite, hsocketType, hsocketPeer,
        Option.ite_none_right_eq_some] at hR hW
      have hread : Turns R W I s (if how = .read ∨ how = .both then (s.access k).shutRead k j
          else s.access k) := by
        split
        · rename_i hhow
          refine hacc.trans (turns_shutRead (fun q hq => hR q ⟨hhow, ?_⟩) j)
          rwa [hscb] at hq
        · exact hacc
      split
      · rename_i hhow
        refine hread.trans (turns_shutWrite fun q hq => hW q ⟨hhow, ?_⟩)
        -- The shutdown of the read side leaves `send` alone, but in a socket that is its own peer.
        split at hq
        · have hsend : (((s.access k).shutRead k j).sockets.scb k).send = some q := hq
          rw [sockets_shutRead, sockets_access] at hsend
          exact Sockets.eq_of_lost ((Sockets.shuts_shutRead s.sockets k j).send k) hsend
        · rwa [hscb] at hq
      · exact hread
    · exact hacc
  · rfl

theorem turns_listenerClose (k : Nat) : Turns R W I s (s.listenerClose k) := by
  have hpc : ∀ pc : StreamPc, (pc.wakeAcceptor k).pipe = pc.pipe := fun pc => by cases pc <;> rfl
  unfold listenerClose
  simp only
  split <;> exact .of_eq rfl rfl rfl fun u => hpc (s.pc u)

/-- The close of a peer shuts down what its `fid` denotes. -/
theorem turns_socketClose (hs : s.socketClose p k = some s')
    (hR : (s.scb k).type = .peer → (s.scb k).refcount ≤ 1 →
      ∀ q, s.sockets.shutsRead .both (denoted s.toFileTables p (s.scb k).fid) = some q → R q)
    (hW : (s.scb k).type = .peer → (s.scb k).refcount ≤ 1 →
      ∀ q, s.sockets.shutsWrite .both (denoted s.toFileTables p (s.scb k).fid) = some q → W q) :
    Turns R W I s s' := by
  have hscb : (s.access k).scb = s.scb := congrArg Sockets.scb (s.sockets_access k)
  have hacc : Turns R W I s (s.access k) := turns_access k
  have hfree : ∀ t : Streams, Turns R W I t (t.freeSCB k) := fun _ =>
    .of_eq rfl rfl rfl fun _ => rfl
  unfold socketClose at hs
  simp only [hscb] at hs
  split at hs
  · cases hs
    exact hacc
  rename_i hle
  split at hs
  · cases hs
    exact hacc.trans (hfree _)
  · cases hs
    exact (hacc.trans (turns_listenerClose k)).trans (hfree _)
  · -- A peer: what follows the shutdown changes no pipe.
    rename_i htype
    obtain ⟨s₁, hs₁, rfl⟩ := Option.map_eq_some_iff.mp hs
    refine Turns.trans ?_ (hfree s₁)
    unfold peerClose at hs₁
    have hshut : Turns R W I (s.access k)
        ((s.access k).sysShutDown p ((s.access k).scb k).fid .both) := by
      refine turns_sysShutDown ?_ ?_ <;>
        rw [access_toFileTables, hscb, sockets_access]
      · exact hR htype (by omega)
      · exact hW htype (by omega)
    simp only at hs₁
    split at hs₁
    · exact absurd hs₁ (by simp)
    · cases hs₁
      exact ((hacc.trans hshut).trans (turns_access _)).trans (.of_eq rfl rfl rfl fun _ => rfl)

/-! ## The calls -/

theorem turns_infoIndex (index : Nat → Nat) : Turns R W I s { s with infoIndex := index } :=
  .of_eq rfl rfl rfl fun _ => rfl

theorem turns_openStream (device : Option Stream) : Turns R W I s (s.openStream p device) := by
  unfold openStream
  split
  · split <;> exact .of_eq rfl rfl rfl fun _ => rfl
  · exact .of_eq rfl rfl rfl fun _ => rfl

theorem turns_sysPipe {malloc : Bool} (hs : s.sysPipe p malloc = some s') :
    Turns R W I s s' := by
  unfold sysPipe at hs
  split at hs
  · rename_i fid₀ f₀ fid₁ f₁ t _
    have hreserve : Turns R W I s { s with toFileTables := t } := .of_eq rfl rfl rfl fun _ => rfl
    have hnew : Turns R W I { s with toFileTables := t }
        (newPipe { s with toFileTables := t } malloc).2 := turns_newPipe malloc
    split at hs
    · exact absurd hs (by simp)
    · rename_i q s₁ hpipe
      rw [hpipe] at hnew
      cases hs
      exact (hreserve.trans hnew).trans (.of_eq rfl rfl rfl fun _ => rfl)
  · cases hs
    exact .of_eq rfl rfl rfl fun _ => rfl

theorem turns_sysSocket {s₁ : Streams} {port : Int} {malloc : Bool} {o : Option Int}
    (h : s.sysSocket p port malloc = (o, s₁)) : Turns R W I s s₁ := by
  unfold sysSocket at h
  split at h
  · cases h
    rfl
  split at h
  · split at h <;> cases h <;> exact .of_eq rfl rfl rfl fun _ => rfl
  · cases h
    exact .of_eq rfl rfl rfl fun _ => rfl

theorem pipe_wakeConnector (r : Nat) (pc : StreamPc) : (pc.wakeConnector r).pipe = pc.pipe := by
  cases pc with
  | connecting i w => cases w <;> rfl
  | _ => rfl

theorem turns_connectPeers (k j r : Nat) (m : Mallocs) :
    Turns R W I s (s.connectPeers k j r m) := by
  have hset : ∀ (t : Streams) (i : Nat) (f : SCB → SCB), Turns R W I t (t.modifySCB i f) :=
    fun t i f => .of_eq rfl rfl rfl fun _ => rfl
  have hcreate : ∀ t : Streams, Turns R W I t (t.createPipe k j m) := by
    intro t
    unfold createPipe
    exact ((turns_newPipe m.receive).trans (turns_newPipe m.send)).trans
      ((hset _ k _).trans (hset _ j _))
  have hsignal : ∀ t : Streams, Turns R W I t ((t.setAccepted r).signalConn r) := fun t =>
    .of_eq rfl rfl rfl fun u => pipe_wakeConnector r (t.pc u)
  exact (((hset s k _).trans (hset _ j _)).trans (hcreate _)).trans (hsignal _)

theorem turns_acceptRequest {l : Nat} {m : Mallocs} (hs : s.acceptRequest p l m = some s') :
    Turns R W I s s' := by
  unfold acceptRequest at hs
  split at hs
  case h_2 => exact absurd hs (by simp)
  rename_i r rs _
  have hqueue : Turns R W I s (s.modifySCB l fun b => { b with reqQueue := some rs }) :=
    .of_eq rfl rfl rfl fun _ => rfl
  have hpop : Turns R W I s (s.popRequest l r rs) :=
    (hqueue.trans (turns_access _)).trans (.of_eq rfl rfl rfl fun _ => rfl)
  simp only at hs
  split at hs
  · rename_i s₁ hsock
    cases hs
    exact (hpop.trans (turns_sysSocket hsock)).trans
      (.of_eq rfl rfl rfl fun u => pipe_wakeConnector r (s₁.pc u))
  · rename_i fid s₁ hsock
    split at hs
    · cases hs
      exact (hpop.trans (turns_sysSocket hsock)).trans (turns_connectPeers ..)
    · exact absurd hs (by simp)

theorem turns_sysAccept {lsock : Int} {m : Mallocs} (hs : s.sysAccept u lsock m = some s') :
    Turns R W I s s' := by
  unfold sysAccept at hs
  simp only at hs
  split at hs
  case h_2 =>
    cases hs
    rfl
  rename_i l _
  have hacc : Turns R W I s (s.access l) := turns_access l
  split at hs
  · cases hs
    exact hacc
  split at hs
  · cases hs
    have hsleep : Turns R W I (s.access l) ((s.access l).goto u (.accepting l false)) :=
      turns_goto (by simp [StreamPc.pipe])
    exact (hacc.trans hsleep).trans (.of_eq rfl rfl rfl fun _ => rfl)
  · exact hacc.trans (turns_acceptRequest hs)

theorem turns_resumeAccept {l : Nat} {m : Mallocs} (hs : s.resumeAccept u l m = some s') :
    Turns R W I s s' := by
  have hgoto : Turns R W I s ((s.access l).goto u .running) :=
    (turns_access l).trans (turns_goto (by simp [StreamPc.pipe]))
  unfold resumeAccept at hs
  simp only at hs
  split at hs
  · cases hs
    exact hgoto
  · exact hgoto.trans (turns_acceptRequest hs)

theorem turns_signalReqs (l : Nat) : Turns R W I s (s.signalReqs l) := by
  unfold signalReqs
  split
  · rfl
  · rename_i v vs _
    have hwake : Turns R W I s (s.goto v ((s.pc v).wakeAcceptor l)) := by
      refine turns_goto fun q hq => .inl ?_
      cases hv : s.pc v <;> rw [hv] at hq <;> exact hq
    exact hwake.trans (.of_eq rfl rfl rfl fun _ => rfl)

theorem turns_sysConnect {sock port : Int} {malloc : Bool}
    (hs : s.sysConnect u sock port malloc = some s') : Turns R W I s s' := by
  unfold sysConnect at hs
  split at hs
  · cases hs
    rfl
  split at hs
  · cases hs
    rfl
  rename_i l _
  have hacc : Turns R W I s (s.access l) := turns_access l
  simp only at hs
  split at hs
  · cases hs
    exact hacc
  split at hs
  · cases hs
    exact hacc
  rename_i f _
  split at hs
  · exact absurd hs (by simp)
  · exact absurd hs (by simp)
  case h_7 k _ =>
    have hclient : Turns R W I s ((s.access l).access k) := hacc.trans (turns_access k)
    split at hs
    · cases hs
      exact hclient
    · cases hs
      have hmake : ∀ t : Streams, t.pipe = ((s.access l).access k).pipe →
          t.freedPipe = ((s.access l).access k).freedPipe →
          t.pipes = ((s.access l).access k).pipes → t.pc = ((s.access l).access k).pc →
          Turns R W I ((s.access l).access k) t := fun t hpipe hfreed hpipes hpc =>
        .of_eq hpipe hfreed hpipes fun u => by rw [hpc]
      refine ((hclient.trans (hmake _ ?_ ?_ ?_ ?_)).trans (turns_signalReqs l)).trans
        (turns_goto (by simp [StreamPc.pipe])) <;> rfl
  -- Another kind of stream.
  all_goals
    cases hs
    obtain ⟨b, hb⟩ := (s.access l).connectOther_eq f malloc
    rw [hb]
    exact hacc.trans (.of_eq rfl rfl rfl fun _ => rfl)

theorem turns_sysListen (sock : Int) : Turns R W I s (s.sysListen p sock) := by
  unfold sysListen
  split
  · rename_i k _
    have hacc : Turns R W I s (s.access k) := turns_access k
    simp only
    split
    · exact hacc.trans (.of_eq rfl rfl rfl fun _ => rfl)
    · exact hacc
  · rfl

/-! ## `Read` and `Write` -/

theorem pipeRead_flags {b b' : PipeCB} {size : Nat} {code : Int} {bytes : List Byte} {wake : Bool}
    (h : pipeRead b size = .ret code bytes b' wake) :
    b'.readerClosed = b.readerClosed ∧ b'.writerClosed = b.writerClosed := by
  unfold pipeRead at h
  simp only at h
  split at h
  · split at h
    · cases h
      exact ⟨rfl, rfl⟩
    · exact absurd h (by simp)
  · split at h <;> cases h <;> exact ⟨rfl, rfl⟩

theorem pipeWriteLoop_flags {b b' : PipeCB} {buf : Nat → Byte} {size : Nat} {code : Int}
    {wake : Bool} (h : pipeWriteLoop b buf size = .ret code b' wake) :
    b'.readerClosed = b.readerClosed ∧ b'.writerClosed = b.writerClosed := by
  unfold pipeWriteLoop at h
  simp only at h
  split at h
  · exact absurd h (by simp)
  · split at h <;> cases h <;> exact ⟨rfl, rfl⟩

theorem pipeWrite_flags {b b' : PipeCB} {buf : Nat → Byte} {size : Nat} {code : Int}
    {wake : Bool} (h : pipeWrite b buf size = .ret code b' wake) :
    b'.readerClosed = b.readerClosed ∧ b'.writerClosed = b.writerClosed := by
  unfold pipeWrite at h
  split at h
  · cases h
    exact ⟨rfl, rfl⟩
  · exact pipeWriteLoop_flags h

theorem turns_returnFrom (u f : Nat) : Turns R W I s (s.returnFrom u f) := by
  have hgoto : Turns R W I s (s.goto u (.returning f)) := turns_goto (by simp [StreamPc.pipe])
  exact hgoto.trans (.of_eq rfl rfl rfl fun _ => rfl)

/-- To go to sleep in `q`, a thread was there already or may go there. -/
theorem turns_sleep {pc : StreamPc} (hq : (s.pc u).pipe = some q ∨ I q) (hpc : pc.pipe = some q) :
    Turns R W I s (s.goto u pc) := by
  refine turns_goto fun i hi => ?_
  obtain rfl := Option.some.inj (hpc.symm.trans hi)
  exact hq

theorem turns_pipeReadStretch (size : Nat) (hq : (s.pc u).pipe = some q ∨ I q) :
    Turns R W I s (s.pipeReadStretch u f q size) := by
  unfold pipeReadStretch
  split
  · exact turns_sleep hq rfl
  · rename_i code bytes b wake h
    obtain ⟨hreader, hwriter⟩ := pipeRead_flags h
    exact ((turns_setPipe hreader hwriter).trans (.ite (turns_broadcastHasSpace q))).trans
      (turns_returnFrom u f)

theorem turns_endWrite {buf : List Byte} {size : Nat} {w : WriteStretch}
    (hq : (s.pc u).pipe = some q ∨ I q)
    (hw : ∀ code b wake, w = .ret code b wake →
      b.readerClosed = (s.pipe q).readerClosed ∧ b.writerClosed = (s.pipe q).writerClosed) :
    Turns R W I s (s.endWrite u f q buf size w) := by
  unfold endWrite
  split
  · exact turns_sleep hq rfl
  · rename_i code b wake
    obtain ⟨hreader, hwriter⟩ := hw code b wake rfl
    exact ((turns_setPipe hreader hwriter).trans (.ite (turns_broadcastHasData q))).trans
      (turns_returnFrom u f)

theorem turns_serialReadStretch (u f size : Nat) (data : Bool) :
    Turns R W I s (s.serialReadStretch u f size data) := by
  unfold serialReadStretch
  split
  · exact turns_returnFrom u f
  · exact turns_goto (by simp [StreamPc.pipe])

/-- A fid or a socket leads to the pipe. -/
def Leads (s : Streams) (q : Nat) : Prop :=
  (∃ p fd f, s.getFCB p fd = some f ∧
    ((s.FT f).stream = some (.reader q) ∨ (s.FT f).stream = some (.writer q))) ∨
  ∃ k, s.sockets.Ends k q

theorem turns_sysRead {fd : Int} {size : Nat} {data : Bool} (hI : ∀ q, s.Leads q → I q)
    (hs : s.sysRead u fd size data = some s') : Turns R W I s s' := by
  unfold sysRead at hs
  split at hs
  · cases hs
    rfl
  rename_i f hf
  have hincref : Turns R W I s { s with toFileTables := s.increfFCB f } :=
    .of_eq rfl rfl rfl fun _ => rfl
  simp only at hs
  split at hs
  · exact absurd hs (by simp)
  · cases hs
    exact hincref.trans (turns_returnFrom u f)
  · cases hs
    exact hincref.trans (turns_returnFrom u f)
  · obtain ⟨index, hi⟩ := infoRead_eq { s with toFileTables := s.increfFCB f } f size
    rw [hi] at hs
    cases hs
    have hread : Turns R W I s { s with toFileTables := s.increfFCB f, infoIndex := index } :=
      .of_eq rfl rfl rfl fun _ => rfl
    exact hread.trans (turns_returnFrom u f)
  · cases hs
    exact hincref.trans (turns_serialReadStretch ..)
  · rename_i q hq
    cases hs
    exact hincref.trans (turns_pipeReadStretch size (.inr (hI q (.inl ⟨_, _, f, hf, .inl hq⟩))))
  · rename_i k _
    have hacc : Turns R W I s (access { s with toFileTables := s.increfFCB f } k) :=
      hincref.trans (turns_access k)
    have hscb : (access { s with toFileTables := s.increfFCB f } k).scb = s.scb :=
      congrArg Sockets.scb (sockets_access _ k)
    split at hs
    · rename_i q _ _ hq
      cases hs
      rw [hscb] at hq
      exact hacc.trans (turns_pipeReadStretch size (.inr (hI q (.inr ⟨k, .inr hq⟩))))
    · cases hs
      exact hacc.trans (turns_returnFrom u f)

theorem turns_sysWrite {fd : Int} {buf : List Byte} {size : Nat} (hI : ∀ q, s.Leads q → I q)
    (hs : s.sysWrite u fd buf size = some s') : Turns R W I s s' := by
  unfold sysWrite at hs
  split at hs
  · cases hs
    rfl
  rename_i f hf
  have hincref : Turns R W I s { s with toFileTables := s.increfFCB f } :=
    .of_eq rfl rfl rfl fun _ => rfl
  simp only at hs
  split at hs
  · exact absurd hs (by simp)
  · cases hs
    exact hincref.trans (turns_returnFrom u f)
  · cases hs
    exact hincref.trans (turns_returnFrom u f)
  · cases hs
    exact hincref.trans (turns_returnFrom u f)
  · cases hs
    exact hincref.trans (turns_returnFrom u f)
  · rename_i q hq
    cases hs
    exact hincref.trans (turns_endWrite (.inr (hI q (.inl ⟨_, _, f, hf, .inr hq⟩)))
      fun _ _ _ => pipeWrite_flags)
  · rename_i k _
    have hacc : Turns R W I s (access { s with toFileTables := s.increfFCB f } k) :=
      hincref.trans (turns_access k)
    have hscb : (access { s with toFileTables := s.increfFCB f } k).scb = s.scb :=
      congrArg Sockets.scb (sockets_access _ k)
    split at hs
    · rename_i q _ _ hq
      cases hs
      rw [hscb] at hq
      exact hacc.trans (turns_endWrite (.inr (hI q (.inr ⟨k, .inl hq⟩)))
        fun _ _ _ => pipeWrite_flags)
    · cases hs
      exact hacc.trans (turns_returnFrom u f)

/-! ## The steps -/

/-- What the step calls `sys_ShutDown` with. -/
def shutting (s : Streams) (a : StreamAction) : Option (ShutdownMode × Option Nat) :=
  match a with
  | .shutDown u sock how => some (how, denoted s.toFileTables (s.owner u) sock)
  | a =>
    match s.closing a with
    | some (.socket k) =>
      if (s.scb k).type = .peer ∧ (s.scb k).refcount ≤ 1 then some (.both, s.found a k) else none
    | _ => none

/-- The pipe whose read end the step closes. -/
def shutsRead (s : Streams) (a : StreamAction) : Option Nat :=
  match s.closing a with
  | some (.reader q) => some q
  | _ => (s.shutting a).bind fun x => s.sockets.shutsRead x.1 x.2

/-- The pipe whose write end it closes, on its own account. -/
def shutsWrite (s : Streams) (a : StreamAction) : Option Nat :=
  match s.closing a with
  | some (.writer q) => some q
  | _ => (s.shutting a).bind fun x => s.sockets.shutsWrite x.1 x.2

theorem shutting_socket (hk : s.closing a = some (.socket k)) (htype : (s.scb k).type = .peer)
    (hle : (s.scb k).refcount ≤ 1) : s.shutting a = some (.both, s.found a k) := by
  unfold shutting
  split
  · exact absurd hk (by simp [closing, dropped])
  · rw [hk]
    exact if_pos ⟨htype, hle⟩

theorem shutsRead_socket (hk : s.closing a = some (.socket k)) (htype : (s.scb k).type = .peer)
    (hle : (s.scb k).refcount ≤ 1) : s.shutsRead a = s.sockets.shutsRead .both (s.found a k) := by
  unfold shutsRead
  rw [hk, shutting_socket hk htype hle]
  rfl

theorem shutsWrite_socket (hk : s.closing a = some (.socket k)) (htype : (s.scb k).type = .peer)
    (hle : (s.scb k).refcount ≤ 1) :
    s.shutsWrite a = s.sockets.shutsWrite .both (s.found a k) := by
  unfold shutsWrite
  rw [hk, shutting_socket hk htype hle]
  rfl

theorem turns_decrefFCB (hs : s.decrefFCB p f = some s') (hlast : (s.FT f).refcount = 1)
    {st : Stream} (hst : (s.FT f).stream = some st)
    (hreader : ∀ q, st = .reader q → R q) (hwriter : ∀ q, st = .writer q → W q)
    (hsocket : ∀ k, st = .socket k → (s.scb k).type = .peer → (s.scb k).refcount ≤ 1 →
      (∀ q, s.sockets.shutsRead .both (denoted s.toFileTables p (s.scb k).fid) = some q → R q) ∧
        ∀ q, s.sockets.shutsWrite .both (denoted s.toFileTables p (s.scb k).fid) = some q → W q) :
    Turns R W I s s' := by
  have hfiles := s.sockets_decrementFCB f
  have hdenoted := s.denoted_decrementFCB p f
  have hdecrement : Turns R W I s { s with toFileTables := s.decrementFCB f } :=
    .of_eq rfl rfl rfl fun _ => rfl
  unfold decrefFCB at hs
  simp only [FileTables.decrementFCB_stream, FileTables.decrementFCB_refcount, if_true, hlast,
    hst] at hs
  obtain ⟨s₁, hs₁, rfl⟩ := Option.map_eq_some_iff.mp hs
  have hclose : Turns R W I { s with toFileTables := s.decrementFCB f } s₁ := by
    cases st with
    | null | serial | info =>
      cases hs₁
      rfl
    | reader q =>
      cases hs₁
      exact turns_readerClose (hreader q rfl)
    | writer q =>
      cases hs₁
      exact turns_writerClose (.inr (hwriter q rfl))
    | socket k =>
      refine turns_socketClose hs₁ (fun htype hle => ?_) fun htype hle => ?_ <;>
        rw [hfiles, hdenoted]
      · exact (hsocket k rfl htype hle).1
      · exact (hsocket k rfl htype hle).2
  exact (hdecrement.trans hclose).trans (.of_eq rfl rfl rfl fun _ => rfl)

theorem Beside.turns (h : Beside s s') : Turns R W I s s' :=
  .of_eq h.pipe h.freedPipe (congrArg Sockets.pipes h.sockets) h.asleep

/-- A thread is elsewhere, and no pipe has changed. -/
theorem turns_moves {pc : StreamPc} (hpc : pc.pipe = none) (hpipe : s'.pipe = s.pipe)
    (hfreed : s'.freedPipe = s.freedPipe) (hpipes : s'.pipes = s.pipes)
    (hmoved : s'.pc = Function.update s.pc u pc) : Turns R W I s s' := by
  have hgoto : Turns R W I s (s.goto u pc) := turns_goto (by simp [hpc])
  exact hgoto.trans (.of_eq hpipe hfreed hpipes fun v => by rw [hmoved]; rfl)

theorem turns_spawnThread (p : Nat) : Turns R W I s (s.spawnThread p) :=
  turns_moves (show StreamPc.pipe .running = none from rfl) rfl rfl rfl rfl

theorem turns_sysExec (p q : Nat) (call : Bool) : Turns R W I s (s.sysExec p q call) := by
  unfold sysExec
  have hinherit : ∀ t : Streams, t.pipe = s.pipe → t.freedPipe = s.freedPipe →
      t.pipes = s.pipes → t.pc = s.pc → Turns R W I s t := fun t hpipe hfreed hpipes hpc =>
    .of_eq hpipe hfreed hpipes fun u => by rw [hpc]
  refine (hinherit _ ?_ ?_ ?_ ?_).trans (.ite (turns_spawnThread q)) <;> rfl

/-- A call that drops no reference. -/
theorem turns_call (hv : caller a = some u) (hu : closer a = none) (hs : s.call u a = some s') :
    Turns (fun q => s.shutsRead a = some q) (fun q => s.shutsWrite a = some q)
      (fun q => s.shutsRead a = none ∧ s.Leads q) s s' := by
  cases a with
  | openNull | openTerminal =>
    cases hs
    exact turns_openStream _
  | pipe v malloc => exact turns_sysPipe hs
  | socket v port malloc =>
    cases hs
    exact turns_sysSocket rfl
  | openInfo v info table copied =>
    obtain ⟨r, hr, rfl⟩ := Option.map_eq_some_iff.mp hs
    rcases sysOpenInfo_cases hr with ⟨index, h⟩ | ⟨-, h⟩
    · rw [h]
      exact (turns_infoIndex index).trans (turns_openStream _)
    · rw [h]
      exact .of_eq rfl rfl rfl fun _ => rfl
  | listen v sock =>
    cases hs
    exact turns_sysListen sock
  | accept v lsock m => exact turns_sysAccept hs
  | connect v sock port malloc => exact turns_sysConnect hs
  | shutDown v sock how =>
    obtain rfl := Option.some.inj hv
    cases hs
    exact turns_sysShutDown (fun q hq => hq) fun q hq => hq
  | read v fd size data => exact turns_sysRead (fun q hq => ⟨rfl, hq⟩) hs
  | write v fd buf size => exact turns_sysWrite (fun q hq => ⟨rfl, hq⟩) hs
  | close | dup2 => exact absurd hu (by simp [closer])
  | exec v q call =>
    obtain ⟨-, hs⟩ := Option.ite_none_right_eq_some.mp hs
    cases hs
    exact turns_sysExec ..
  | createThread v =>
    cases hs
    exact turns_spawnThread _
  | exit v =>
    cases hs
    exact turns_moves (by simp [StreamPc.pipe]) rfl rfl rfl rfl
  | reap | resume | proceed | rxReady | timeout => exact absurd hv (by simp [caller])

theorem turns_resume {data : Bool} {m : Mallocs} (hs : s.resume u data m = some s') :
    Turns R W I s s' := by
  have hanswer : ∀ r w, Turns R W I s (s.resumeConnect u r w) := by
    intro r w
    unfold resumeConnect
    simp only
    split <;> exact turns_moves (show StreamPc.pipe .running = none from rfl) rfl rfl rfl rfl
  unfold Streams.resume at hs
  split at hs
  · rename_i f q size hu
    cases hs
    exact turns_pipeReadStretch size (.inl (by rw [hu]; rfl))
  · rename_i f q buf size hu
    cases hs
    exact turns_endWrite (.inl (by rw [hu]; rfl)) fun _ _ _ => pipeWriteLoop_flags
  · cases hs
    exact turns_serialReadStretch ..
  · exact turns_resumeAccept hs
  · cases hs
    exact hanswer ..
  · cases hs
    exact hanswer ..
  · exact absurd hs (by simp)

/-- **What a step does to the pipes** is said by `shutsRead` and `shutsWrite`. -/
theorem turns_perform (hs : s.perform a = some s') :
    Turns (fun q => s.shutsRead a = some q) (fun q => s.shutsWrite a = some q)
      (fun q => s.shutsRead a = none ∧ s.Leads q) s s' := by
  cases hu : closer a with
  | none =>
    rcases perform_cases hs with ⟨p, rfl, -, rfl⟩ | ⟨v, data, m, rfl, -, hs⟩ |
      ⟨v, rfl, -, -⟩ | ⟨rfl, rfl⟩ | ⟨v, r, rfl, -, rfl⟩ | ⟨v, hv, -, -, hs⟩
    · exact .of_eq rfl rfl rfl fun _ => rfl
    · exact turns_resume hs
    · exact absurd hu (by simp [closer])
    · refine .of_eq rfl rfl rfl fun u => ?_
      cases hpc : s.pc u <;> simp [hpc, StreamPc.wakeSerial, StreamPc.pipe]
    · exact turns_goto (by simp [StreamPc.pipe])
    · exact turns_call hv hu hs
  | some u =>
    rcases drop_spec hs hu with ⟨-, hb⟩ | ⟨f, s₀, s₁, hf, h₀, hcount, hfound, hd, h₁⟩
    · exact hb.turns
    refine (h₀.turns.trans ?_).trans h₁.turns
    by_cases hlast : (s.FT f).refcount = 1
    · obtain ⟨st, hst⟩ := exists_stream_of_decrefFCB hd (by rw [hcount, hlast])
      rw [h₀.stream] at hst
      have hclosing := closing_eq hf hlast hst
      refine turns_decrefFCB hd (by rw [hcount, hlast]) (by rw [h₀.stream, hst]) ?_ ?_ ?_
      · rintro q rfl
        rw [shutsRead, hclosing]
      · rintro q rfl
        rw [shutsWrite, hclosing]
      · rintro k rfl htype hle
        have hscb : s₀.scb = s.scb := congrArg Sockets.scb h₀.sockets
        rw [hscb] at htype hle
        rw [h₀.sockets, hscb, hfound]
        constructor <;> intro q hq
        · rw [shutsRead_socket hclosing htype hle, hq]
        · rw [shutsWrite_socket hclosing htype hle, hq]
    · rw [decrefFCB_of_ne hd (by rwa [hcount])]
      exact .of_eq rfl rfl rfl fun _ => rfl

/-! ## The pipes of a run -/

/-- The ends that sockets get are those of new pipes. -/
theorem SocketStep.ends (ha : s.sockets.Allotted) (hs : SocketStep s a n) (hk : n.Ends k q) :
    s.sockets.Ends k q ∨ s.pipes ≤ q := by
  cases hs with
  | quiet | forget | pipe | sleep | leave | timeout | spawn => exact .inl hk
  | create f port fid _ =>
    simp only [Sockets.Ends, Sockets.create, Function.update_apply] at hk
    split at hk
    · simp at hk
    · exact .inl hk
  | @listen u i sock _ _ _ _ _ =>
    simp only [Sockets.Ends, Sockets.listen, Sockets.modifySCB, Function.update_apply] at hk
    split at hk
    · simp at hk
    · exact .inl hk
  | @refuse u l r m rs _ _ _ _ =>
    change ((s.sockets.goto u .busy).popRequest l r rs).Ends k q at hk
    unfold Sockets.Ends at hk
    rw [Sockets.popRequest_scb] at hk
    exact .inl hk
  | @serve u l r m rs f fid _ _ hq _ =>
    exact Sockets.serve_ends (ha.req r (ha.queue l r (SCB.mem_queue hq))) hk
  | request =>
    unfold Sockets.Ends at hk
    rw [Sockets.request_scb] at hk
    exact .inl hk
  | answer =>
    unfold Sockets.answer at hk
    simp only at hk
    split at hk <;> exact .inl hk
  | shut => exact .inl ((Sockets.shuts_shutDown ..).ends hk)
  | close _ _ _ _ hc => exact .inl (Sockets.close_ends hc hk)

theorem closes_socket (hs : s.perform a = some s') (hk : s.closing a = some (.socket k))
    (hle : (s.scb k).refcount ≤ 1) : s.sockets.close (s.found a k) k = some s'.sockets := by
  obtain ⟨f, hf, hst⟩ := Option.bind_eq_some_iff.mp hk
  obtain ⟨hlast, hst⟩ := Option.ite_none_right_eq_some.mp hst
  have hu : ∃ u, closer a = some u := by
    cases hu : closer a with
    | none => exact absurd ((dropped_eq_none hu).symm.trans hf) (by simp)
    | some u => exact ⟨u, rfl⟩
  obtain ⟨u, hu⟩ := hu
  rcases drop_spec hs hu with ⟨hno, -⟩ | ⟨g, s₀, s₁, hg, h₀, hcount, hfound, hd, h₁⟩
  · exact absurd (hno.symm.trans hf) (by simp)
  obtain rfl := Option.some.inj (hf.symm.trans hg)
  have hscb : s₀.scb = s.scb := congrArg Sockets.scb h₀.sockets
  have hlast₀ : (s₀.FT f).refcount = 1 := by rw [hcount, hlast]
  have hst₀ : (s₀.FT f).stream = some (.socket k) := by rw [h₀.stream, hst]
  rw [h₁.sockets, ← h₀.sockets]
  rcases sockets_decrefFCB hd with ⟨-, hmore⟩ | ⟨j, -, hj, -, hclose⟩
  · exact absurd (hscb ▸ hmore k hlast₀ hst₀) (by omega)
  · obtain rfl : k = j := by simpa using hst₀.symm.trans hj
    rwa [hscb, hfound] at hclose

/-- **What `ShutDown` frees is no socket's end any more.** -/
theorem ends_of_shutting (hw : s.sockets.Wired) (hs : s.perform a = some s')
    {how : ShutdownMode} {target : Option Nat} (ha : s.shutting a = some (how, target))
    (hk : s'.sockets.Ends k q) : s.sockets.shutsRead how target ≠ some q := by
  unfold shutting at ha
  split at ha
  · -- A call of `ShutDown`.
    rename_i v sock mode
    cases ha
    have hcall : some (s.sysShutDown (s.owner v) sock how) = some s' := perform_call rfl hs
    cases hcall
    rw [sockets_sysShutDown] at hk
    exact hw.shutDown_ends hk
  · -- The close of a peer.
    split at ha
    · rename_i j hj
      obtain ⟨⟨htype, hle⟩, ha⟩ := Option.ite_none_right_eq_some.mp ha
      cases ha
      exact hw.shutDown_ends (Sockets.peerClose_ends (closes_socket hs hj hle) htype hk)
    · exact absurd ha (by simp)

theorem shutsRead_cases (hq : s.shutsRead a = some q) : s.closing a = some (.reader q) ∨
    ∃ how target, s.shutting a = some (how, target) ∧
      s.sockets.shutsRead how target = some q := by
  unfold shutsRead at hq
  split at hq
  · rename_i i hi
    exact .inl (Option.some.inj hq ▸ hi)
  · obtain ⟨⟨how, target⟩, hx, hq⟩ := Option.bind_eq_some_iff.mp hq
    exact .inr ⟨how, target, hx, hq⟩

theorem shutsWrite_cases (hq : s.shutsWrite a = some q) : s.closing a = some (.writer q) ∨
    ∃ k, s.sockets.Ends k q := by
  unfold shutsWrite at hq
  split at hq
  · rename_i i hi
    exact .inl (Option.some.inj hq ▸ hi)
  · obtain ⟨⟨how, target⟩, -, hq⟩ := Option.bind_eq_some_iff.mp hq
    exact .inr (Sockets.exists_ends_of_shutsWrite hq)

/-- `object i` is what the stream `i` is. A closed end of a `Pipe` was closed as a stream, a closed
read end belongs to no socket, and nobody is in its pipe. -/
structure Piped (s : Streams) (object : Nat → Stream) : Prop where
  once : s.FreedOnce
  reader : ∀ i < s.opens, ∀ q, object i = .reader q → (s.pipe q).readerClosed = true → i ∈ s.closes
  writer : ∀ i < s.opens, ∀ q, object i = .writer q → (s.pipe q).writerClosed = true → i ∈ s.closes
  alone : ∀ i < s.opens, ∀ q, object i = .reader q ∨ object i = .writer q → ∀ k,
    ¬ s.sockets.Ends k q
  ends : ∀ k q, s.sockets.Ends k q → (s.pipe q).readerClosed = false
  inside : ∀ u q, (s.pc u).pipe = some q → (s.pipe q).readerClosed = false

variable {object object' : Nat → Stream} {R : Nat → List FileTables.Ref}

/-- No read end is closed while a thread is blocked in its pipe, nor that of a `Pipe` before the
write end. -/
def ClosesInOrder (s : Streams) (a : StreamAction) : Prop :=
  ∀ q ∈ s.shutsRead a, (∀ u < s.threads, (s.pc u).pipe ≠ some q) ∧
    (s.closing a = some (.reader q) → (s.pipe q).writerClosed = true)

instance (s : Streams) (a : StreamAction) : Decidable (s.ClosesInOrder a) :=
  inferInstanceAs (Decidable (∀ q ∈ s.shutsRead a, (∀ u < s.threads, (s.pc u).pipe ≠ some q) ∧
    (s.closing a = some (.reader q) → (s.pipe q).writerClosed = true)))

/-- The stream that a step closes, and no other, is closed after it. -/
theorem Named.closing_mem (h : s.Named object) (hs : s.perform a = some s') {st : Stream}
    (hst : s.closing a = some st) (hdevice : st.device = false) :
    (∃ i < s.opens, object i = st) ∧ ∀ i < s.opens, object i = st → i ∈ s'.closes := by
  rcases opens_or_closes hs with ⟨hno, -⟩ | ⟨f, st', hf, hlast, hst', hk⟩
  · exact absurd (hno.symm.trans hst) (by simp)
  obtain rfl := Option.some.inj ((closing_eq hf hlast hst').symm.trans hst)
  obtain ⟨hlt, hobject⟩ := h.stream f st' hst'
  refine ⟨⟨s.opening f, hlt, hobject⟩, fun i hi he => ?_⟩
  obtain rfl := h.one i hi _ hlt (he.trans hobject.symm) (by rw [he, hdevice])
  rw [hk.closes]
  exact List.mem_append_right _ (List.mem_singleton_self _)

theorem closes_mono (hs : s.perform a = some s') : s.closes ⊆ s'.closes := by
  rcases opens_or_closes hs with ⟨-, ho⟩ | ⟨f, st, -, -, -, hk⟩
  · cases ho with
    | none hk | device _ hk | socket _ hk | pipe _ _ hk =>
      rw [hk.closes]
      exact List.Subset.refl _
  · rw [hk.closes]
    exact List.subset_append_left _ _

/-- **An end of a pipe that an FCB in use holds is an end of a live pipe.** -/
theorem Piped.held (h : s.Piped object) (hn : s.Named object) (hi : s.Inv R) (hf : R f ≠ [])
    (hst : (s.FT f).stream = some (.reader q) ∨ (s.FT f).stream = some (.writer q)) :
    (s.pipe q).readerClosed = false := by
  rw [← Bool.not_eq_true]
  intro hclosed
  rcases hst with hst | hst
  · obtain ⟨hlt, hobject⟩ := hn.stream f _ hst
    exact hn.unclosed hi hf hst rfl _ (h.reader _ hlt q hobject hclosed) hobject
  · obtain ⟨hlt, hobject⟩ := hn.stream f _ hst
    have hwriter := h.once.both q hclosed
    exact hn.unclosed hi hf hst rfl _ (h.writer _ hlt q hobject hwriter) hobject

theorem Piped.leads (h : s.Piped object) (hn : s.Named object) (hi : s.Inv R)
    (hq : s.Leads q) : (s.pipe q).readerClosed = false := by
  rcases hq with ⟨p, fd, f, hf, hst⟩ | ⟨k, hk⟩
  · exact h.held hn hi (hi.inUse_of_getFCB hf) hst
  · exact h.ends k q hk

/-- The pipes that a step closes an end of were made before. -/
theorem Named.shuts_lt (hn : s.Named object) (ha : s.sockets.Allotted)
    (hs : s.perform a = some s') (hq : s.shutsRead a = some q ∨ s.shutsWrite a = some q) :
    q < s.pipes := by
  have hends : ∀ k, s.sockets.Ends k q → q < s.pipes := fun k hk =>
    hk.elim (ha.send k q) (ha.receive k q)
  rcases hq with hq | hq
  · rcases shutsRead_cases hq with hq | ⟨how, target, -, hq⟩
    · obtain ⟨i, hi, he⟩ := (hn.closing_mem hs hq rfl).1
      exact hn.pipe i hi q (.inl he)
    · obtain ⟨k, hk⟩ := Sockets.exists_ends_of_shutsRead hq
      exact hends k hk
  · rcases shutsWrite_cases hq with hq | ⟨k, hk⟩
    · obtain ⟨i, hi, he⟩ := (hn.closing_mem hs hq rfl).1
      exact hn.pipe i hi q (.inr he)
    · exact hends k hk

/-- A read end that is closed after a step was closed before, or it is the stream that the step closes,
or it was a socket's and is no socket's any more. -/
theorem reader_closed (hw : s.sockets.Wired) (hs : s.perform a = some s')
    (hq : (s'.pipe q).readerClosed = true) : (s.pipe q).readerClosed = true ∨
      s.closing a = some (.reader q) ∨
      (∃ k, s.sockets.Ends k q) ∧ ∀ k, ¬ s'.sockets.Ends k q := by
  rcases (turns_perform hs).reader q hq with hbefore | hr
  · exact .inl hbefore
  · rcases shutsRead_cases hr with hr | ⟨how, target, hshut, hr⟩
    · exact .inr (.inl hr)
    · refine .inr (.inr ⟨Sockets.exists_ends_of_shutsRead hr, fun k hk => ?_⟩)
      exact ends_of_shutting hw hs hshut hk hr

/-- And a write end, where the step closes pipes in order. -/
theorem writer_closed (hc : s.ClosesInOrder a) (hs : s.perform a = some s')
    (hq : (s'.pipe q).writerClosed = true) : (s.pipe q).writerClosed = true ∨
      s.closing a = some (.writer q) ∨ ∃ k, s.sockets.Ends k q := by
  rcases (turns_perform hs).writer q hq with hbefore | hr | hr
  · exact .inl hbefore
  · rcases shutsRead_cases hr with hcl | ⟨how, target, -, hshut⟩
    · exact .inl ((hc q hr).2 hcl)
    · exact .inr (.inr (Sockets.exists_ends_of_shutsRead hshut))
  · exact .inr (shutsWrite_cases hr)

/-- No step closes an end of a pipe that was not made before it. -/
theorem Piped.fresh (h : s.Piped object) (hn : s.Named object) (ha : s.sockets.Allotted)
    (hs : s.perform a = some s') (hq : s.pipes ≤ q) :
    (s'.pipe q).readerClosed = false ∧ (s'.pipe q).writerClosed = false := by
  have ht := turns_perform hs
  have hlt : ¬ (s.shutsRead a = some q ∨ s.shutsWrite a = some q) := fun hr =>
    absurd (hn.shuts_lt ha hs hr) (Nat.not_lt_of_le hq)
  obtain ⟨hreader, hwriter⟩ := h.once.fresh q hq
  constructor <;> rw [← Bool.not_eq_true] <;> intro hclosed
  · rcases ht.reader q hclosed with hbefore | hr
    · exact absurd hbefore (by simp [hreader])
    · exact hlt (.inl hr)
  · rcases ht.writer q hclosed with hbefore | hr
    · exact absurd hbefore (by simp [hwriter])
    · exact hlt hr

/-- Nobody is in a pipe whose read end a step closes, nor goes there. -/
theorem Piped.inside_step (h : s.Piped object) (hn : s.Named object) (hi : s.Inv R)
    (hs : s.perform a = some s') (hc : s.ClosesInOrder a) (hu : (s'.pc u).pipe = some q) :
    (s'.pipe q).readerClosed = false := by
  have ht := turns_perform hs
  rw [← Bool.not_eq_true]
  intro hclosed
  rcases ht.inside u q hu with hbefore | ⟨hnone, hleads⟩
  · rcases ht.reader q hclosed with hq | hr
    · exact absurd hq (by simp [h.inside u q hbefore])
    · refine (hc q hr).1 u ?_ hbefore
      by_contra hge
      rw [hi.placed.born u (Nat.le_of_not_lt hge)] at hbefore
      exact absurd hbefore (by simp [StreamPc.pipe])
  · -- It has just gone to sleep there, and such a step closes nothing.
    rcases ht.reader q hclosed with hq | hr
    · exact absurd hq (by simp [h.leads hn hi hleads])
    · exact absurd (hnone.symm.trans hr) (by simp)

/-- **A step that closes pipes in order** leaves nothing that points at a pipe that it frees. -/
theorem Piped.step (h : s.Piped object) (hn : s.Named object) (hi : s.Inv R)
    (hw : s.sockets.Wired) (ha : s.sockets.Allotted) (hs : s.perform a = some s')
    (hc : s.ClosesInOrder a)
    (hold : ∀ i < s.opens, object' i = object i) (hnew : s.NewPipes s' object') :
    s'.Piped object' := by
  have hends : ∀ k q, s'.sockets.Ends k q → s.sockets.Ends k q ∨ s.pipes ≤ q := fun k q hk =>
    (socketStep hs).ends ha hk
  have hfresh := fun q (hq : s.pipes ≤ q) => h.fresh hn ha hs hq
  constructor
  case once => exact (turns_perform hs).once (fun q hq => hn.shuts_lt ha hs hq) h.once
  case reader =>
    intro i hi' q hq hclosed
    rcases Nat.lt_or_ge i s.opens with hi | hge
    · rw [hold i hi] at hq
      rcases reader_closed hw hs hclosed with hbefore | hcl | ⟨⟨k, hk⟩, -⟩
      · exact closes_mono hs (h.reader i hi q hq hbefore)
      · exact (hn.closing_mem hs hcl rfl).2 i hi hq
      · exact absurd hk (h.alone i hi q (.inl hq) k)
    · have hle := (hnew i hge hi' q (.inl hq)).1
      exact absurd hclosed (by simp [(hfresh q hle).1])
  case writer =>
    intro i hi' q hq hclosed
    rcases Nat.lt_or_ge i s.opens with hi | hge
    · rw [hold i hi] at hq
      rcases writer_closed hc hs hclosed with hbefore | hcl | ⟨k, hk⟩
      · exact closes_mono hs (h.writer i hi q hq hbefore)
      · exact (hn.closing_mem hs hcl rfl).2 i hi hq
      · exact absurd hk (h.alone i hi q (.inr hq) k)
    · have hle := (hnew i hge hi' q (.inr hq)).1
      exact absurd hclosed (by simp [(hfresh q hle).2])
  case alone =>
    intro i hi' q hq k hk
    rcases Nat.lt_or_ge i s.opens with hi | hge
    · rw [hold i hi] at hq
      rcases hends k q hk with hk | hle
      · exact h.alone i hi q hq k hk
      · exact absurd (hn.pipe i hi q hq) (by omega)
    · -- The sockets are those of before, and the pipe is new.
      obtain ⟨hle, hscb⟩ := hnew i hge hi' q hq
      have hbefore : s.sockets.Ends k q := by
        unfold Sockets.Ends at hk ⊢
        change (s'.scb k).send = _ ∨ (s'.scb k).receive = _ at hk
        rwa [hscb] at hk
      exact absurd (hbefore.elim (ha.send k q) (ha.receive k q)) (Nat.not_lt_of_le hle)
  case ends =>
    intro k q hk
    rcases hends k q hk with hbefore | hle
    · rw [← Bool.not_eq_true]
      intro hclosed
      rcases reader_closed hw hs hclosed with hq | hcl | ⟨-, hno⟩
      · exact absurd hq (by simp [h.ends k q hbefore])
      · obtain ⟨i, hi, he⟩ := (hn.closing_mem hs hcl rfl).1
        exact h.alone i hi q (.inl he) k hbefore
      · exact hno k hk
    · exact (hfresh q hle).1
  case inside => exact fun u q hu => h.inside_step hn hi hs hc hu

/-! ## The runs that close pipes in order -/

/-- A step that meets the conditions. -/
structure Proper (s : Streams) (a : StreamAction) : Prop where
  sound : s.Sound a
  closes : s.ClosesInOrder a

instance (s : Streams) (a : StreamAction) : Decidable (s.Proper a) :=
  decidable_of_iff (s.Sound a ∧ s.ClosesInOrder a) ⟨fun h => ⟨h.1, h.2⟩, fun h => ⟨h.1, h.2⟩⟩

theorem piped (hr : streamSys.ReachIf Proper s) : ∃ object, s.Named object ∧ s.Piped object := by
  induction hr with
  | init hi =>
    obtain ⟨serialPorts, rfl⟩ := hi
    refine ⟨fun _ => .null, ?_, ?_⟩
    · constructor <;> simp [initial, FileTables.initializeFiles]
    · have hpc : ∀ u, ((Streams.initial serialPorts).pc u).pipe = none := by
        intro u
        simp only [Streams.initial]
        split <;> rfl
      constructor
      case once => constructor <;> simp [initial, getPipe]
      case inside => exact fun u q hu => absurd ((hpc u).symm.trans hu) (by simp)
      all_goals simp [initial, sockets, Sockets.Ends, getPipe]
  | @step s s' a hr hc hs ih =>
    obtain ⟨object, hn, h⟩ := ih
    obtain ⟨R, hi⟩ := inductive_inv.reachIf (hr.mono fun _ _ hc => hc.sound)
    obtain ⟨object', hn', hold, hnew⟩ := hn.step hs
    exact ⟨object', hn', h.step hn hi (wired hr) (allotted hr) hs hc.closes hold hnew⟩

/-- An FCB is in use. -/
def InUse (s : Streams) (f : Nat) : Prop :=
  (∃ p fd, s.FIDT p fd = some f) ∨ ∃ u, (s.pc u).fcb = some f

/-- No freed pipe is pointed at, and a pipe was freed once if both of its ends are closed, and not
otherwise. -/
structure PipesLive (s : Streams) : Prop where
  stream : ∀ f q, s.InUse f → (s.FT f).stream = some (.reader q) ∨
    (s.FT f).stream = some (.writer q) → s.freedPipe q = 0
  socket : ∀ k q, s.freedSCB k = 0 → (s.scb k).send = some q ∨ (s.scb k).receive = some q →
    s.freedPipe q = 0
  blocked : ∀ u q, (s.pc u).pipe = some q → s.freedPipe q = 0
  once : ∀ q, s.freedPipe q =
    if (s.pipe q).readerClosed = true ∧ (s.pipe q).writerClosed = true then 1 else 0

theorem pipesLive (hr : streamSys.ReachIf Proper s) : s.PipesLive := by
  obtain ⟨object, hn, h⟩ := piped hr
  obtain ⟨R, hi⟩ := inductive_inv.reachIf (hr.mono fun _ _ hc => hc.sound)
  have hlive : ∀ q, (s.pipe q).readerClosed = false → s.freedPipe q = 0 := by
    intro q hq
    rw [h.once.freed, hq]
    rfl
  constructor
  case stream =>
    intro f q hf hst
    have href : R f ≠ [] := by
      rcases hf with ⟨p, fd, hfd⟩ | ⟨u, hu⟩
      · exact List.ne_nil_of_mem ((hi.files.entries f p fd).mpr hfd)
      · exact List.ne_nil_of_mem ((hi.files.threads f u).mpr hu)
    exact hlive q (h.held hn hi href hst)
  case socket => exact fun k q _ hk => hlive q (h.ends k q hk)
  case blocked => exact fun u q hu => hlive q (h.inside u q hu)
  case once =>
    intro q
    rw [h.once.freed]
    by_cases hq : (s.pipe q).readerClosed = true
    · rw [if_pos hq, if_pos ⟨hq, h.once.both q hq⟩]
    · rw [if_neg hq, if_neg fun hboth => hq hboth.1]

end Streams

/-- **Every pipe that is pointed at is live, and each is freed once**, in every run that closes the
read end of a pipe of `Pipe` last, and no read end while a thread is blocked in its pipe, and in
which no `Socket` or `OpenInfo` fails in its `malloc`. -/
theorem pipes_live (s : Streams) (hr : streamSys.ReachIf (fun s a => s.Proper a) s) :
    s.PipesLive :=
  Streams.pipesLive hr

/-- A pipe loses both ends while a thread sleeps in it and goes on, then a connection its read side,
and the thread reads from the other side. -/
theorem pipes_live_run : ∃ s : Streams, s.PipesLive ∧ s.freedPipe 0 = 1 ∧ s.freedPipe 1 = 1 ∧
    (s.scb 2).send = some 2 ∧ (s.pc 1).pipe = some 2 := by
  obtain ⟨s, hr, hp⟩ := Sys.reachIf_of_exec (M := streamSys) (C := fun s a => s.Proper a)
    (fun s a => decide (s.Proper a)) (Streams.initial 0)
    [.pipe 0 true, .createThread 0, .read 1 0 5 false, .close 0 1,
      .resume 1 false ⟨true, true, true⟩, .proceed 1, .close 0 0, .socket 0 7 true, .listen 0 0,
      .socket 0 0 true, .connect 1 1 7 true, .accept 0 0 ⟨true, true, true⟩, .shutDown 0 2 .read,
      .resume 1 false ⟨true, true, true⟩, .read 1 1 4 false]
    (fun s => decide (s.freedPipe 0 = 1 ∧ s.freedPipe 1 = 1 ∧ (s.scb 2).send = some 2 ∧
      (s.pc 1).pipe = some 2))
    (fun s a h => of_decide_eq_true h) ⟨0, rfl⟩ (by decide)
  exact ⟨s, pipes_live s hr, of_decide_eq_true hp⟩

/-- The read end of a pipe is closed while the write end is open. -/
theorem not_pipes_live : ¬ ∀ s, streamSys.ReachIf (fun s a => s.Alive a) s → s.PipesLive := by
  intro hall
  obtain ⟨s, hr, hp⟩ := Sys.reachIf_of_exec (M := streamSys) (C := fun s a => s.Alive a)
    (fun s a => decide (s.Alive a)) (Streams.initial 0) [.pipe 0 true, .close 0 0]
    (fun s => decide (s.FIDT 1 1 = some 1 ∧ (s.FT 1).stream = some (.writer 0) ∧
      s.freedPipe 0 = 1))
    (fun s a h => of_decide_eq_true h) ⟨0, rfl⟩ (by decide)
  obtain ⟨hentry, hst, hfreed⟩ := of_decide_eq_true hp
  have hlive := (hall s hr).stream 1 0 (.inl ⟨1, 1, hentry⟩) (.inr hst)
  exact absurd (hfreed.symm.trans hlive) (by simp)

end TinyOS
