import TinyOS.Pipe.Ends
import TinyOS.Stream.PipeHeap

/-!
# Every pipe of the kernel is a pipe with two ends

`Pipe/Ends.lean` has one pipe, and threads that do nothing but read, write and close it. The kernel has
any number of pipes, which are read, written and closed through fids, sockets, the loop of `Exit` and the
last reference that a returning `Read` drops. **Seen from one of its pipes, a step of the kernel is a step
of that pipe, or none** (`flows`): the bytes move in the same stretches, and the same threads are woken
(`streams_simulate_pipe`).

Most functions do nothing to a pipe (`Still`). A call of `Close` or `ShutDown` closes an end of it, or
none (`Closes`), and never both on its own account.
-/

set_option autoImplicit false

namespace TinyOS

open Transition

namespace StreamPc

/-- Where a thread is with respect to the pipe `q`. -/
def pipePc (q : Nat) : StreamPc → PipePc
  | .reading _ i size ready =>
    if i = q then if ready then .woken (.read size) else .asleep (.read size) else .out
  | .writing _ i buf size ready =>
    if i = q then
      if ready then .woken (.write (Streams.bytes buf) size)
      else .asleep (.write (Streams.bytes buf) size)
    else .out
  | _ => .out

variable {pc : StreamPc} {q i : Nat}

theorem pipePc_of_ne (h : pc.pipe ≠ some q) : pc.pipePc q = .out := by
  cases pc with
  | reading f i size ready | writing f i buf size ready =>
    have hne : i ≠ q := fun he => h (congrArg some he)
    simp [pipePc, hne]
  | _ => rfl

theorem pipe_of_pipePc (h : pc.pipePc q ≠ .out) : pc.pipe = some q := by
  by_contra hne
  exact h (pipePc_of_ne hne)

theorem pipePc_wakeReader_self : (pc.wakeReader q).pipePc q = (pc.pipePc q).dataBroadcast := by
  cases pc with
  | reading f i size ready =>
    by_cases hi : i = q <;> cases ready <;> simp [wakeReader, pipePc, PipePc.dataBroadcast, hi]
  | writing f i buf size ready =>
    by_cases hi : i = q <;> cases ready <;> simp [wakeReader, pipePc, PipePc.dataBroadcast, hi]
  | _ => rfl

theorem pipePc_wakeWriter_self : (pc.wakeWriter q).pipePc q = (pc.pipePc q).spaceBroadcast := by
  cases pc with
  | reading f i size ready =>
    by_cases hi : i = q <;> cases ready <;> simp [wakeWriter, pipePc, PipePc.spaceBroadcast, hi]
  | writing f i buf size ready =>
    by_cases hi : i = q <;> cases ready <;> simp [wakeWriter, pipePc, PipePc.spaceBroadcast, hi]
  | _ => rfl

theorem pipePc_wakeReader (h : i ≠ q) : (pc.wakeReader i).pipePc q = pc.pipePc q := by
  cases pc with
  | reading f j size ready =>
    by_cases hj : j = q <;> simp [wakeReader, pipePc, hj, h.symm]
  | _ => rfl

theorem pipePc_wakeWriter (h : i ≠ q) : (pc.wakeWriter i).pipePc q = pc.pipePc q := by
  cases pc with
  | writing f j buf size ready =>
    by_cases hj : j = q <;> simp [wakeWriter, pipePc, hj, h.symm]
  | _ => rfl

@[simp] theorem pipePc_wakeAcceptor (k : Nat) : (pc.wakeAcceptor k).pipePc q = pc.pipePc q := by
  cases pc <;> rfl

@[simp] theorem pipePc_wakeConnector (r : Nat) : (pc.wakeConnector r).pipePc q = pc.pipePc q := by
  cases pc with
  | connecting i w => cases w <;> rfl
  | _ => rfl

@[simp] theorem pipePc_wakeSerial : pc.wakeSerial.pipePc q = pc.pipePc q := by
  cases pc <;> rfl

end StreamPc

/-- What the flags say that was closed. -/
def PipeCB.closings (b b' : PipeCB) : List PipeEvent :=
  (if b.readerClosed = false ∧ b'.readerClosed = true then [.readerClosed] else []) ++
    (if b.writerClosed = false ∧ b'.writerClosed = true then [.writerClosed] else [])

@[simp] theorem PipeCB.closings_self (b : PipeCB) : b.closings b = [] := by
  simp [closings]

namespace Streams

variable {s s' s'' : Streams} {a : StreamAction} {u p f k q i : Nat}

/-- The pipe `q`, on which `log` has happened. -/
def ends (s : Streams) (q : Nat) (log : List PipeEvent) : PipeEnds Nat where
  pipe := s.pipe q
  pc u := (s.pc u).pipePc q
  delivered := log.flatMap PipeEvent.delivered
  accepted := log.flatMap PipeEvent.accepted
  log := log

/-- Nothing has happened to the pipe `q`. -/
structure Still (q : Nat) (s s' : Streams) : Prop where
  pipe : s'.pipe q = s.pipe q
  pc : ∀ u, (s'.pc u).pipePc q = (s.pc u).pipePc q

theorem Still.of_eq (hpipe : s'.pipe = s.pipe) (hpc : s'.pc = s.pc) : Still q s s' :=
  ⟨by rw [hpipe], fun _ => by rw [hpc]⟩

@[refl] theorem Still.refl (s : Streams) : Still q s s := .of_eq rfl rfl

theorem Still.trans (h : Still q s s') (h' : Still q s' s'') : Still q s s'' :=
  ⟨h'.pipe.trans h.pipe, fun u => (h'.pc u).trans (h.pc u)⟩

theorem Still.ends (h : Still q s s') (log : List PipeEvent) : s'.ends q log = s.ends q log := by
  unfold Streams.ends
  rw [h.pipe, funext h.pc]

theorem Still.ite {c : Prop} [Decidable c] (h : Still q s s') :
    Still q s (if c then s' else s) := by
  split
  · exact h
  · rfl

theorem still_access (k : Nat) : Still q s (s.access k) := by
  unfold access
  split <;> exact .of_eq rfl rfl

/-- A thread that was not in the pipe goes elsewhere. -/
theorem still_goto {pc : StreamPc} (hu : (s.pc u).pipePc q = .out) (hpc : pc.pipePc q = .out) :
    Still q s (s.goto u pc) := by
  refine ⟨rfl, fun v => ?_⟩
  simp only [goto, Function.update_apply]
  split
  · rename_i hv
    rw [hv, hu, hpc]
  · rfl

theorem still_newPipe (hfresh : s.pipes ≤ q → s.pipe q = getPipe) (malloc : Bool) :
    Still q s (s.newPipe malloc).2 := by
  unfold newPipe
  split
  · refine ⟨?_, fun _ => rfl⟩
    simp only [setPipe, Function.update_apply]
    split
    · rename_i hq
      exact (hfresh hq.ge).symm
    · rfl
  · rfl

theorem fresh_newPipe (hfresh : s.pipes ≤ q → s.pipe q = getPipe) (malloc : Bool) :
    (s.newPipe malloc).2.pipes ≤ q → (s.newPipe malloc).2.pipe q = getPipe := by
  intro hle
  rw [(still_newPipe hfresh malloc).pipe]
  refine hfresh (Nat.le_trans ?_ hle)
  unfold newPipe
  split
  · exact Nat.le_succ _
  · exact Nat.le_refl _

/-! ## The calls that leave the pipes alone -/

theorem still_openStream (device : Option Stream) : Still q s (s.openStream p device) := by
  unfold openStream
  split
  · split <;> exact .of_eq rfl rfl
  · exact .of_eq rfl rfl

theorem still_sysPipe {malloc : Bool} (hfresh : s.pipes ≤ q → s.pipe q = getPipe)
    (hs : s.sysPipe p malloc = some s') : Still q s s' := by
  unfold sysPipe at hs
  split at hs
  · rename_i fid₀ f₀ fid₁ f₁ t _
    have hnew := still_newPipe (s := { s with toFileTables := t }) hfresh malloc
    split at hs
    · exact absurd hs (by simp)
    · rename_i i s₁ hpipe
      rw [hpipe] at hnew
      cases hs
      exact ⟨hnew.pipe, hnew.pc⟩
  · cases hs
    exact .of_eq rfl rfl

theorem sysSocket_pipes {s₁ : Streams} {port : Int} {malloc : Bool} {o : Option Int}
    (h : s.sysSocket p port malloc = (o, s₁)) :
    s₁.pipe = s.pipe ∧ s₁.pc = s.pc ∧ s₁.pipes = s.pipes := by
  unfold sysSocket at h
  split at h
  · cases h
    exact ⟨rfl, rfl, rfl⟩
  split at h
  · split at h <;> cases h <;> exact ⟨rfl, rfl, rfl⟩
  · cases h
    exact ⟨rfl, rfl, rfl⟩

theorem still_connectPeers (hfresh : s.pipes ≤ q → s.pipe q = getPipe) (k j r : Nat)
    (m : Mallocs) : Still q s (s.connectPeers k j r m) := by
  -- The state in which the two pipes are made.
  obtain ⟨t, ht⟩ : ∃ t : Streams, t =
      (s.modifySCB k fun b => { b with refcount := 1, type := .peer, peer := some j }).modifySCB j
        fun b => { b with type := .peer, peer := some k, reqQueue := none } := ⟨_, rfl⟩
  have hset : Still q s t := by
    rw [ht]
    exact .of_eq rfl rfl
  have hfresh₀ : t.pipes ≤ q → t.pipe q = getPipe := by
    rw [ht]
    exact hfresh
  have hreceive := still_newPipe hfresh₀ m.receive
  have hsend := still_newPipe (fresh_newPipe hfresh₀ m.receive) m.send
  have hpipes : (s.connectPeers k j r m).pipe = (((t.newPipe m.receive).2).newPipe m.send).2.pipe :=
    by rw [ht]; rfl
  have hpc : (s.connectPeers k j r m).pc =
      fun u => ((((t.newPipe m.receive).2).newPipe m.send).2.pc u).wakeConnector r := by
    rw [ht]
    rfl
  refine ((hset.trans hreceive).trans hsend).trans ⟨by rw [hpipes], fun u => ?_⟩
  rw [hpc, StreamPc.pipePc_wakeConnector]

theorem still_acceptRequest {l : Nat} {m : Mallocs} (hfresh : s.pipes ≤ q → s.pipe q = getPipe)
    (hs : s.acceptRequest p l m = some s') : Still q s s' := by
  unfold acceptRequest at hs
  split at hs
  case h_2 => exact absurd hs (by simp)
  rename_i r rs _
  have hqueue : Still q s (s.modifySCB l fun b => { b with reqQueue := some rs }) := .of_eq rfl rfl
  have hpop : Still q s (s.popRequest l r rs) :=
    (hqueue.trans (still_access _)).trans (.of_eq rfl rfl)
  have hpipes : (s.popRequest l r rs).pipes = s.pipes := by
    unfold popRequest access
    simp only
    split <;> rfl
  simp only at hs
  split at hs
  · rename_i s₁ hsock
    obtain ⟨hpipe, hpc, -⟩ := sysSocket_pipes hsock
    cases hs
    exact (hpop.trans (.of_eq hpipe hpc)).trans ⟨rfl, fun u => StreamPc.pipePc_wakeConnector r⟩
  · rename_i fid s₁ hsock
    obtain ⟨hpipe, hpc, hmade⟩ := sysSocket_pipes hsock
    have hsocket := hpop.trans (.of_eq hpipe hpc)
    split at hs
    · cases hs
      refine hsocket.trans (still_connectPeers (fun hle => ?_) _ _ _ _)
      rw [hsocket.pipe]
      exact hfresh (by rwa [hmade, hpipes] at hle)
    · exact absurd hs (by simp)

theorem still_sysAccept {lsock : Int} {m : Mallocs} (hu : (s.pc u).pipePc q = .out)
    (hfresh : s.pipes ≤ q → s.pipe q = getPipe) (hs : s.sysAccept u lsock m = some s') :
    Still q s s' := by
  unfold sysAccept at hs
  simp only at hs
  split at hs
  case h_2 =>
    cases hs
    rfl
  rename_i l _
  have hacc : Still q s (s.access l) := still_access l
  have hpipes : (s.access l).pipes = s.pipes := by
    unfold access
    split <;> rfl
  split at hs
  · cases hs
    exact hacc
  split at hs
  · cases hs
    have hsleep : Still q (s.access l) ((s.access l).goto u (.accepting l false)) :=
      still_goto ((hacc.pc u).trans hu) rfl
    exact (hacc.trans hsleep).trans (.of_eq rfl rfl)
  · refine hacc.trans (still_acceptRequest (fun hle => ?_) hs)
    rw [hacc.pipe]
    exact hfresh (by rwa [hpipes] at hle)

theorem still_resumeAccept {l : Nat} {m : Mallocs} (hu : (s.pc u).pipePc q = .out)
    (hfresh : s.pipes ≤ q → s.pipe q = getPipe) (hs : s.resumeAccept u l m = some s') :
    Still q s s' := by
  have hacc : Still q s (s.access l) := still_access l
  have hgoto : Still q s ((s.access l).goto u .running) :=
    hacc.trans (still_goto ((hacc.pc u).trans hu) rfl)
  have hpipes : ((s.access l).goto u .running).pipes = s.pipes := by
    unfold access
    split <;> rfl
  unfold resumeAccept at hs
  simp only at hs
  split at hs
  · cases hs
    exact hgoto
  · refine hgoto.trans (still_acceptRequest (fun hle => ?_) hs)
    rw [hgoto.pipe]
    exact hfresh (by rwa [hpipes] at hle)

theorem still_signalReqs (l : Nat) : Still q s (s.signalReqs l) := by
  unfold signalReqs
  split
  · rfl
  · rename_i v vs _
    refine ⟨rfl, fun u => ?_⟩
    simp only [goto, Function.update_apply]
    split
    · rename_i hv
      rw [hv, StreamPc.pipePc_wakeAcceptor]
    · rfl

theorem still_sysConnect {sock port : Int} {malloc : Bool} (hu : (s.pc u).pipePc q = .out)
    (hs : s.sysConnect u sock port malloc = some s') : Still q s s' := by
  unfold sysConnect at hs
  split at hs
  · cases hs
    rfl
  split at hs
  · cases hs
    rfl
  rename_i l _
  have hacc : Still q s (s.access l) := still_access l
  simp only at hs
  split at hs
  · cases hs
    exact hacc
  split at hs
  · cases hs
    exact hacc
  rename_i f _
  split at hs
  · exact absurd hs (by simp)
  · exact absurd hs (by simp)
  case h_7 k _ =>
    have hclient : Still q s ((s.access l).access k) := hacc.trans (still_access k)
    split at hs
    · cases hs
      exact hclient
    · cases hs
      have hmake : ∀ t : Streams, t.pipe = ((s.access l).access k).pipe →
          t.pc = ((s.access l).access k).pc → ∀ r w,
          Still q s ((t.signalReqs l).goto u (.connecting r w)) := fun t hpipe hpc r w => by
        have hrequest := (hclient.trans (.of_eq hpipe hpc)).trans (still_signalReqs l)
        exact hrequest.trans (still_goto ((hrequest.pc u).trans hu) rfl)
      exact hmake _ (by rfl) (by rfl) _ _
  -- Another kind of stream.
  all_goals
    cases hs
    obtain ⟨b, hb⟩ := (s.access l).connectOther_eq f malloc
    rw [hb]
    exact hacc.trans (.of_eq rfl rfl)

theorem still_sysListen (sock : Int) : Still q s (s.sysListen p sock) := by
  unfold sysListen
  split
  · rename_i k _
    have hacc : Still q s (s.access k) := still_access k
    simp only
    split
    · exact hacc.trans (.of_eq rfl rfl)
    · exact hacc
  · rfl

theorem still_returnFrom (hu : (s.pc u).pipePc q = .out) : Still q s (s.returnFrom u f) := by
  have hgoto : Still q s (s.goto u (.returning f)) := still_goto hu rfl
  exact hgoto.trans (.of_eq rfl rfl)

theorem still_serialReadStretch (hu : (s.pc u).pipePc q = .out) (f size : Nat) (data : Bool) :
    Still q s (s.serialReadStretch u f size data) := by
  unfold serialReadStretch
  split
  · exact still_returnFrom hu
  · exact still_goto hu rfl

theorem still_spawnThread (hborn : (s.pc s.threads).pipePc q = .out) (p : Nat) :
    Still q s (s.spawnThread p) := by
  have hgoto : Still q s (s.goto s.threads .running) := still_goto hborn rfl
  exact hgoto.trans (.of_eq rfl rfl)

theorem still_sysExec (hborn : (s.pc s.threads).pipePc q = .out) (p i : Nat) (call : Bool) :
    Still q s (s.sysExec p i call) := by
  unfold sysExec
  have hinherit : ∀ t : Streams, t.pipe = s.pipe → t.pc = s.pc → Still q s t := fun t hpipe hpc =>
    .of_eq hpipe hpc
  refine (hinherit _ ?_ ?_).trans (.ite (still_spawnThread ?_ i))
  · rfl
  · rfl
  · exact hborn

theorem still_resumeConnect (hu : (s.pc u).pipePc q = .out) (r : Nat) (w : TimedWait) :
    Still q s (s.resumeConnect u r w) := by
  have hgoto : Still q s (s.goto u .running) := still_goto hu rfl
  unfold resumeConnect
  simp only
  split <;> exact hgoto.trans (.of_eq rfl rfl)

/-! ## Closing an end -/

theorem writerClose_closed (t : PipeEnds Nat) : t.writerClose.pipe.writerClosed = true := by
  unfold PipeEnds.writerClose
  split
  · assumption
  · rfl

theorem readerClose_closed {t : PipeEnds Nat} (h : t.pipe.readerClosed = false) :
    t.readerClose.pipe.readerClosed = true ∧ t.readerClose.pipe.writerClosed = true := by
  rw [PipeEnds.readerClose, if_neg (by simp [h])]
  refine ⟨?_, writerClose_closed _⟩
  unfold PipeEnds.writerClose
  split <;> rfl

/-- An end of the pipe `q` that was open is closed, or none. -/
inductive Closes (q : Nat) (s s' : Streams) : Prop where
  | still (h : Still q s s')
  | reader (hopen : (s.pipe q).readerClosed = false)
      (h : ∀ log, s'.ends q (log ++ (s.pipe q).closings (s'.pipe q)) = (s.ends q log).readerClose)
  | writer (hopen : (s.pipe q).writerClosed = false)
      (h : ∀ log, s'.ends q (log ++ (s.pipe q).closings (s'.pipe q)) = (s.ends q log).writerClose)

theorem Still.closes (h : Still q s s') (h' : Closes q s' s'') : Closes q s s'' := by
  cases h' with
  | still h' => exact .still (h.trans h')
  | reader hopen h' => exact .reader (h.pipe ▸ hopen) fun log => by rw [← h.ends, ← h.pipe, h']
  | writer hopen h' => exact .writer (h.pipe ▸ hopen) fun log => by rw [← h.ends, ← h.pipe, h']

theorem Closes.still_trans (h : Closes q s s') (h' : Still q s' s'') : Closes q s s'' := by
  cases h with
  | still h => exact .still (h.trans h')
  | reader hopen h => exact .reader hopen fun log => by rw [h'.ends, h'.pipe, h]
  | writer hopen h => exact .writer hopen fun log => by rw [h'.ends, h'.pipe, h]

theorem ends_writerClose (hopen : (s.pipe q).writerClosed = false) (log : List PipeEvent) :
    (s.writerClose q).ends q (log ++ [.writerClosed]) = (s.ends q log).writerClose := by
  have hdelivered : PipeEvent.delivered .writerClosed = [] := rfl
  have haccepted : PipeEvent.accepted .writerClosed = [] := rfl
  have hopen' : (s.ends q log).pipe.writerClosed = false := hopen
  unfold Streams.writerClose PipeEnds.writerClose
  rw [hopen, hopen']
  simp only [Bool.false_eq_true, if_false, Streams.ends, broadcastHasData, setPipe,
    Function.update_self, StreamPc.pipePc_wakeReader_self, List.flatMap_append, List.flatMap_cons,
    List.flatMap_nil, List.append_nil, hdelivered, haccepted]

theorem still_writerClose (h : i ≠ q) : Still q s (s.writerClose i) := by
  unfold Streams.writerClose
  split
  · rfl
  · exact ⟨Function.update_of_ne h.symm .., fun u => StreamPc.pipePc_wakeReader h⟩

theorem closes_writerClose (i : Nat) : Closes q s (s.writerClose i) := by
  by_cases hi : i = q
  · subst hi
    by_cases hopen : (s.pipe i).writerClosed = false
    · refine .writer hopen fun log => ?_
      have hpipe : (s.writerClose i).pipe i = { s.pipe i with writerClosed := true } := by
        unfold Streams.writerClose
        rw [if_neg (by simp [hopen])]
        exact Function.update_self ..
      rw [← ends_writerClose hopen, hpipe]
      simp [PipeCB.closings, hopen]
    · rw [Streams.writerClose, if_pos (by simpa using hopen)]
      exact .still (.refl s)
  · exact .still (still_writerClose hi)

/-- The flag of the read end is set, and the writers are woken. -/
theorem ends_setReader (hopen : (s.pipe q).readerClosed = false) (log : List PipeEvent) :
    (s.ends q log).readerClose = (((s.setPipe q { s.pipe q with
      readerClosed := true }).broadcastHasSpace q).ends q (log ++ [.readerClosed])).writerClose := by
  have hdelivered : PipeEvent.delivered .readerClosed = [] := rfl
  have haccepted : PipeEvent.accepted .readerClosed = [] := rfl
  have hopen' : (s.ends q log).pipe.readerClosed = false := hopen
  unfold PipeEnds.readerClose
  rw [if_neg (by simp [hopen'])]
  refine congrArg PipeEnds.writerClose ?_
  simp only [Streams.ends, broadcastHasSpace, setPipe, Function.update_self,
    StreamPc.pipePc_wakeWriter_self, List.flatMap_append, List.flatMap_cons, List.flatMap_nil,
    List.append_nil, hdelivered, haccepted]

theorem still_readerClose (h : i ≠ q) : Still q s (s.readerClose i) := by
  unfold Streams.readerClose
  split
  · rfl
  · have hset : Still q s ((s.setPipe i { s.pipe i with
        readerClosed := true }).broadcastHasSpace i) :=
      ⟨Function.update_of_ne h.symm .., fun u => StreamPc.pipePc_wakeWriter h⟩
    exact (hset.trans (still_writerClose h)).trans (.of_eq rfl rfl)

theorem closes_readerClose (i : Nat) : Closes q s (s.readerClose i) := by
  by_cases hi : i = q
  · subst hi
    by_cases hopen : (s.pipe i).readerClosed = false
    · obtain ⟨t, ht⟩ : ∃ t : Streams, t =
          (s.setPipe i { s.pipe i with readerClosed := true }).broadcastHasSpace i := ⟨_, rfl⟩
      have hpipe : t.pipe i = { s.pipe i with readerClosed := true } := by
        rw [ht]
        exact Function.update_self ..
      have hclose : Still i (t.writerClose i) (s.readerClose i) := by
        rw [ht, Streams.readerClose, if_neg (by simp [hopen])]
        exact .of_eq rfl rfl
      refine .reader hopen fun log => ?_
      rw [ends_setReader hopen, ← ht, hclose.ends, hclose.pipe]
      by_cases hw : (s.pipe i).writerClosed = true
      · -- The write end was closed before.
        have hwriter : (t.pipe i).writerClosed = true := by rw [hpipe]; exact hw
        have hsame : t.writerClose i = t := by rw [Streams.writerClose, if_pos hwriter]
        have hends : ∀ log, (t.ends i log).writerClose = t.ends i log := fun log => by
          rw [PipeEnds.writerClose]
          exact if_pos hwriter
        rw [hsame, hends, hpipe]
        simp [PipeCB.closings, hopen, hw]
      · have hwriter : (t.pipe i).writerClosed = false := by rw [hpipe]; simpa using hw
        have hpipe' : (t.writerClose i).pipe i = { t.pipe i with writerClosed := true } := by
          rw [Streams.writerClose, if_neg (by simp [hwriter])]
          exact Function.update_self ..
        rw [← ends_writerClose hwriter, hpipe', hpipe]
        simp [PipeCB.closings, hopen, hw]
    · rw [Streams.readerClose, if_pos (by simpa using hopen)]
      exact .still (.refl s)
  · exact .still (still_readerClose hi)

/-- Once an end is closed, the write end is. -/
theorem Closes.writerClosed (h : Closes q s s') :
    Still q s s' ∨ (s'.pipe q).writerClosed = true := by
  cases h with
  | still h => exact .inl h
  | reader hopen h =>
    have heq := congrArg (fun t : PipeEnds Nat => t.pipe.writerClosed) (h [])
    exact .inr (heq.trans (readerClose_closed (t := s.ends q []) hopen).2)
  | writer hopen h =>
    have heq := congrArg (fun t : PipeEnds Nat => t.pipe.writerClosed) (h [])
    exact .inr (heq.trans (writerClose_closed _))

theorem Closes.writerClose (h : Closes q s s') (i : Nat) : Closes q s (s'.writerClose i) := by
  rcases h.writerClosed with hstill | hclosed
  · exact hstill.closes (closes_writerClose i)
  · refine h.still_trans ?_
    by_cases hi : i = q
    · rw [Streams.writerClose, if_pos (hi ▸ hclosed)]
    · exact still_writerClose hi

/-- Closing an end brings nobody into the pipe. -/
theorem Closes.out (h : Closes q s s') (hu : (s.pc u).pipePc q = .out) :
    (s'.pc u).pipePc q = .out := by
  have hwriter : ∀ t : PipeEnds Nat, t.pc u = .out → t.writerClose.pc u = .out := by
    intro t ht
    unfold PipeEnds.writerClose
    split
    · exact ht
    · simp only [ht, PipePc.dataBroadcast]
  cases h with
  | still h => exact (h.pc u).trans hu
  | reader hopen h =>
    have heq := congrArg (fun t : PipeEnds Nat => t.pc u) (h [])
    refine heq.trans ?_
    have hopen' : (s.ends q []).pipe.readerClosed = false := hopen
    have hpc : (s.ends q []).pc u = .out := hu
    rw [PipeEnds.readerClose, if_neg (by simp [hopen'])]
    exact hwriter _ (by simp only [hpc, PipePc.spaceBroadcast])
  | writer hopen h =>
    have heq := congrArg (fun t : PipeEnds Nat => t.pc u) (h [])
    exact heq.trans (hwriter _ hu)

theorem closes_shutRead (k j : Nat) : Closes q s (s.shutRead k j) := by
  unfold shutRead
  split
  · exact .still (.refl s)
  · rename_i i _
    have hreceive : Still q (s.readerClose i)
        ((s.readerClose i).modifySCB k fun b => { b with receive := none }) := .of_eq rfl rfl
    exact ((closes_readerClose i).still_trans (hreceive.trans (still_access j))).still_trans
      (.of_eq rfl rfl)

theorem Closes.shutWrite (h : Closes q s s') (k : Nat) : Closes q s (s'.shutWrite k) := by
  unfold Streams.shutWrite
  split
  · exact h
  · exact (h.writerClose _).still_trans (.of_eq rfl rfl)

theorem closes_sysShutDown (p : Nat) (fd : Int) (how : ShutdownMode) :
    Closes q s (s.sysShutDown p fd how) := by
  unfold sysShutDown
  split
  · rename_i k _
    have hacc : Still q s (s.access k) := still_access k
    simp only
    split
    · rename_i j _ _
      have hread : Closes q s (if how = .read ∨ how = .both then (s.access k).shutRead k j
          else s.access k) := by
        split
        · exact hacc.closes (closes_shutRead k j)
        · exact .still hacc
      split
      · exact hread.shutWrite k
      · exact hread
    · exact .still hacc
  · exact .still (.refl s)

theorem still_listenerClose (k : Nat) : Still q s (s.listenerClose k) := by
  unfold listenerClose
  simp only
  split <;> exact ⟨rfl, fun u => StreamPc.pipePc_wakeAcceptor k⟩

theorem closes_socketClose (hs : s.socketClose p k = some s') : Closes q s s' := by
  have hacc : Still q s (s.access k) := still_access k
  have hfree : ∀ t : Streams, Still q t (t.freeSCB k) := fun _ => .of_eq rfl rfl
  unfold socketClose at hs
  simp only at hs
  split at hs
  · cases hs
    exact .still hacc
  split at hs
  · cases hs
    exact .still (hacc.trans (hfree _))
  · cases hs
    exact .still ((hacc.trans (still_listenerClose k)).trans (hfree _))
  · obtain ⟨s₁, hs₁, rfl⟩ := Option.map_eq_some_iff.mp hs
    unfold peerClose at hs₁
    simp only at hs₁
    split at hs₁
    · exact absurd hs₁ (by simp)
    · cases hs₁
      have hshut := hacc.closes (closes_sysShutDown (q := q) (s := s.access k) p
        ((s.access k).scb k).fid .both)
      exact (hshut.still_trans (still_access _)).still_trans (.of_eq rfl rfl)

theorem closes_decrefFCB (hs : s.decrefFCB p f = some s') : Closes q s s' := by
  have hdecrement : Still q s { s with toFileTables := s.decrementFCB f } := .of_eq rfl rfl
  unfold decrefFCB at hs
  simp only at hs
  split at hs
  · split at hs
    · exact absurd hs (by simp)
    · rename_i st _
      obtain ⟨s₁, hs₁, rfl⟩ := Option.map_eq_some_iff.mp hs
      have hclose : Closes q { s with toFileTables := s.decrementFCB f } s₁ := by
        cases st with
        | null | serial | info =>
          cases hs₁
          exact .still (.refl _)
        | reader i =>
          cases hs₁
          exact closes_readerClose i
        | writer i =>
          cases hs₁
          exact closes_writerClose i
        | socket k => exact closes_socketClose hs₁
      exact hdecrement.closes (hclose.still_trans (.of_eq rfl rfl))
  · cases hs
    exact .still hdecrement

theorem closes_decrefEntry {o : Option Nat} (hs : s.decrefEntry p o = some s') :
    Closes q s s' := by
  cases o with
  | none =>
    cases hs
    exact .still (.refl s)
  | some f => exact closes_decrefFCB hs

theorem closes_sysClose {fd : Int} (hs : s.sysClose p fd = some s') : Closes q s s' := by
  unfold sysClose at hs
  split at hs
  · cases hs
    exact .still (.refl s)
  · have hentry : Still q s { s with toFileTables := s.setEntry p fd none } := .of_eq rfl rfl
    exact hentry.closes (closes_decrefFCB hs)

theorem closes_sysDup2 {oldfd newfd : Int} (hs : s.sysDup2 p oldfd newfd = some s') :
    Closes q s s' := by
  unfold sysDup2 at hs
  split at hs
  · cases hs
    exact .still (.refl s)
  split at hs
  · cases hs
    exact .still (.refl s)
  simp only at hs
  split at hs
  · cases hs
    exact .still (.refl s)
  · obtain ⟨s₁, hs₁, rfl⟩ := Option.map_eq_some_iff.mp hs
    exact (closes_decrefEntry hs₁).still_trans (.of_eq rfl rfl)

theorem closes_proceed (hs : s.proceed u = some s') : Closes q s s' := by
  unfold Streams.proceed at hs
  split at hs
  · rename_i g hu
    have hout : (s.pc u).pipePc q = .out := by rw [hu]; rfl
    have hgoto : Still q s (s.goto u .running) := still_goto hout rfl
    have hback : Still q s { s.goto u .running with lock := none } :=
      hgoto.trans (.of_eq rfl rfl)
    exact hback.closes (closes_decrefFCB hs)
  · rename_i j hu
    have hout : (s.pc u).pipePc q = .out := by rw [hu]; rfl
    split at hs
    · obtain ⟨s₁, hs₁, rfl⟩ := Option.map_eq_some_iff.mp hs
      obtain ⟨s₂, hs₂, rfl⟩ := Option.map_eq_some_iff.mp hs₁
      have hclose : Closes q s s₂ := closes_decrefEntry hs₂
      have hset : Still q s₂ { s₂ with toFileTables := s₂.setEntry (s.owner u) j none } :=
        .of_eq rfl rfl
      exact (hclose.still_trans hset).still_trans
        (still_goto ((hset.pc u).trans (hclose.out hout)) rfl)
    · cases hs
      have hgoto : Still q s (s.goto u .exited) := still_goto hout rfl
      exact .still (hgoto.trans (.of_eq rfl rfl))
  · exact absurd hs (by simp)

/-! ## `Read` and `Write` -/

/-- The pipe that a `Read` of the fid reads from. -/
def readEnd (s : Streams) (p : Nat) (fd : Int) : Option Nat :=
  (s.getFCB p fd).bind fun f =>
    match (s.FT f).stream with
    | some (.reader q) => some q
    | some (.socket k) =>
      match (s.scb k).type, (s.scb k).peer, (s.scb k).receive with
      | .peer, some _, some q => some q
      | _, _, _ => none
    | _ => none

/-- The pipe that a `Write` to the fid writes into. -/
def writeEnd (s : Streams) (p : Nat) (fd : Int) : Option Nat :=
  (s.getFCB p fd).bind fun f =>
    match (s.FT f).stream with
    | some (.writer q) => some q
    | some (.socket k) =>
      match (s.scb k).type, (s.scb k).peer, (s.scb k).send with
      | .peer, some _, some q => some q
      | _, _, _ => none
    | _ => none

/-- The pipe on which a step runs a stretch, and which. -/
def pipeAction (s : Streams) : StreamAction → Option (Nat × PipeAction Nat)
  | .read u fd size _ => (s.readEnd (s.owner u) fd).map fun q => (q, .call u (.read size))
  | .write u fd buf size =>
    (s.writeEnd (s.owner u) fd).map fun q => (q, .call u (.write (bytes buf) size))
  | .resume u _ _ =>
    match s.pc u with
    | .reading _ q _ true | .writing _ q _ _ true => some (q, .resume u)
    | _ => none
  | _ => none

/-- What a stretch on the pipe `q` returns. -/
def pipeEvents (s : Streams) (a : StreamAction) (q : Nat) : List PipeEvent :=
  match s.pipeAction a with
  | some (i, b) => if i = q then (s.ends q []).toPipeState.events b else []
  | none => []

theorem sysRead_spec {fd : Int} {size : Nat} {data : Bool} (hu : s.pc u = .running)
    (hs : s.sysRead u fd size data = some s') :
    (∃ i f t, s.readEnd (s.owner u) fd = some i ∧ (∀ q, Still q s t) ∧
      s' = t.pipeReadStretch u f i size) ∨
      s.readEnd (s.owner u) fd = none ∧ ∀ q, Still q s s' := by
  have hout : ∀ q, (s.pc u).pipePc q = .out := fun q => by rw [hu]; rfl
  unfold sysRead at hs
  unfold readEnd
  cases hf : s.getFCB (s.owner u) fd with
  | none =>
    rw [hf] at hs
    cases hs
    exact .inr ⟨rfl, fun _ => .refl s⟩
  | some f =>
    have hincref : ∀ q, Still q s { s with toFileTables := s.increfFCB f } := fun _ =>
      .of_eq rfl rfl
    have hreturn : ∀ t : Streams, (∀ q, Still q s t) → ∀ q, Still q s (t.returnFrom u f) :=
      fun t ht q => (ht q).trans (still_returnFrom (((ht q).pc u).trans (hout q)))
    simp only [hf, Option.bind_some] at hs ⊢
    cases hst : (s.FT f).stream with
    | none => simp [hst] at hs
    | some st =>
      rw [hst] at hs
      cases st with
      | null | writer =>
        cases hs
        exact .inr ⟨rfl, hreturn _ hincref⟩
      | info =>
        cases hs
        obtain ⟨index, hi⟩ := infoRead_eq { s with toFileTables := s.increfFCB f } f size
        rw [hi]
        exact .inr ⟨rfl, hreturn _ fun _ => .of_eq rfl rfl⟩
      | serial =>
        cases hs
        exact .inr ⟨rfl, fun q => (hincref q).trans
          (still_serialReadStretch (((hincref q).pc u).trans (hout q)) f size data)⟩
      | reader i =>
        cases hs
        exact .inl ⟨i, f, _, rfl, hincref, rfl⟩
      | socket k =>
        have hacc : ∀ q, Still q s (access { s with toFileTables := s.increfFCB f } k) := fun q =>
          (hincref q).trans (still_access k)
        have hscb : (access { s with toFileTables := s.increfFCB f } k).scb = s.scb :=
          congrArg Sockets.scb (sockets_access _ k)
        simp only [hscb] at hs ⊢
        generalize (s.scb k).type = type, (s.scb k).peer = peer, (s.scb k).receive = receive at hs ⊢
        cases type with
        | unbound | listener =>
          cases hs
          exact .inr ⟨rfl, hreturn _ hacc⟩
        | peer =>
          cases peer with
          | none =>
            cases hs
            exact .inr ⟨rfl, hreturn _ hacc⟩
          | some j =>
            cases receive with
            | none =>
              cases hs
              exact .inr ⟨rfl, hreturn _ hacc⟩
            | some i =>
              cases hs
              exact .inl ⟨i, f, _, rfl, hacc, rfl⟩

theorem sysWrite_spec {fd : Int} {buf : List Byte} {size : Nat} (hu : s.pc u = .running)
    (hs : s.sysWrite u fd buf size = some s') :
    (∃ i f t, s.writeEnd (s.owner u) fd = some i ∧ (∀ q, Still q s t) ∧
      s' = t.endWrite u f i buf size (pipeWrite (t.pipe i) (bytes buf) size)) ∨
      s.writeEnd (s.owner u) fd = none ∧ ∀ q, Still q s s' := by
  have hout : ∀ q, (s.pc u).pipePc q = .out := fun q => by rw [hu]; rfl
  unfold sysWrite at hs
  unfold writeEnd
  cases hf : s.getFCB (s.owner u) fd with
  | none =>
    rw [hf] at hs
    cases hs
    exact .inr ⟨rfl, fun _ => .refl s⟩
  | some f =>
    have hincref : ∀ q, Still q s { s with toFileTables := s.increfFCB f } := fun _ =>
      .of_eq rfl rfl
    have hreturn : ∀ t : Streams, (∀ q, Still q s t) → ∀ q, Still q s (t.returnFrom u f) :=
      fun t ht q => (ht q).trans (still_returnFrom (((ht q).pc u).trans (hout q)))
    simp only [hf, Option.bind_some] at hs ⊢
    cases hst : (s.FT f).stream with
    | none => simp [hst] at hs
    | some st =>
      rw [hst] at hs
      cases st with
      | null | reader | serial | info =>
        cases hs
        exact .inr ⟨rfl, hreturn _ hincref⟩
      | writer i =>
        cases hs
        exact .inl ⟨i, f, _, rfl, hincref, rfl⟩
      | socket k =>
        have hacc : ∀ q, Still q s (access { s with toFileTables := s.increfFCB f } k) := fun q =>
          (hincref q).trans (still_access k)
        have hscb : (access { s with toFileTables := s.increfFCB f } k).scb = s.scb :=
          congrArg Sockets.scb (sockets_access _ k)
        simp only [hscb] at hs ⊢
        generalize (s.scb k).type = type, (s.scb k).peer = peer, (s.scb k).send = send at hs ⊢
        cases type with
        | unbound | listener =>
          cases hs
          exact .inr ⟨rfl, hreturn _ hacc⟩
        | peer =>
          cases peer with
          | none =>
            cases hs
            exact .inr ⟨rfl, hreturn _ hacc⟩
          | some j =>
            cases send with
            | none =>
              cases hs
              exact .inr ⟨rfl, hreturn _ hacc⟩
            | some i =>
              cases hs
              exact .inl ⟨i, f, _, rfl, hacc, rfl⟩

/-- A thread that runs a stretch on the pipe `i` is in no other one. -/
theorem still_pipeReadStretch (h : i ≠ q) (hu : (s.pc u).pipePc q = .out) (size : Nat) :
    Still q s (s.pipeReadStretch u f i size) := by
  unfold pipeReadStretch
  split
  · exact still_goto hu (by simp [StreamPc.pipePc, h])
  · rename_i b wake _
    have hset : Still q s (s.setPipe i b) := ⟨Function.update_of_ne h.symm .., fun _ => rfl⟩
    have hwake : Still q (s.setPipe i b)
        (if wake then (s.setPipe i b).broadcastHasSpace i else s.setPipe i b) :=
      .ite ⟨rfl, fun _ => StreamPc.pipePc_wakeWriter h⟩
    exact (hset.trans hwake).trans (still_returnFrom ((hwake.pc u).trans hu))

theorem still_endWrite (h : i ≠ q) (hu : (s.pc u).pipePc q = .out) (buf : List Byte) (size : Nat)
    (w : WriteStretch) : Still q s (s.endWrite u f i buf size w) := by
  unfold endWrite
  split
  · exact still_goto hu (by simp [StreamPc.pipePc, h])
  · rename_i code b wake
    have hset : Still q s (s.setPipe i b) := ⟨Function.update_of_ne h.symm .., fun _ => rfl⟩
    have hwake : Still q (s.setPipe i b)
        (if wake then (s.setPipe i b).broadcastHasData i else s.setPipe i b) :=
      .ite ⟨rfl, fun _ => StreamPc.pipePc_wakeReader h⟩
    exact (hset.trans hwake).trans (still_returnFrom ((hwake.pc u).trans hu))

/-- A stretch of `pipe_read`, seen from its pipe. -/
theorem ends_pipeReadStretch (size : Nat) (log : List PipeEvent) :
    (s.pipeReadStretch u f q size).ends q (log ++ (pipeRead (s.pipe q) size).events) =
      { toPipeState := (s.ends q log).toPipeState.afterRead u size (pipeRead (s.pipe q) size)
        log := log ++ (pipeRead (s.pipe q) size).events } := by
  unfold pipeReadStretch
  cases hr : pipeRead (s.pipe q) size with
  | wait =>
    simp only [Streams.ends, PipeState.afterRead, ReadStretch.events, List.append_nil, goto]
    congr 2
    funext v
    simp only [Function.update_apply]
    split
    · simp [StreamPc.pipePc]
    · rfl
  | ret code bytes b wake =>
    have hdelivered : PipeEvent.delivered (.read code bytes) = bytes := rfl
    have haccepted : PipeEvent.accepted (.read code bytes) = [] := rfl
    simp only [Streams.ends, PipeState.afterRead, ReadStretch.events, List.flatMap_append,
      List.flatMap_cons, List.flatMap_nil, List.append_nil, hdelivered, haccepted]
    congr 2
    · cases wake <;> exact Function.update_self ..
    · funext v
      simp only [returnFrom, goto, Function.update_apply]
      split
      · rfl
      · cases wake
        · rfl
        · exact StreamPc.pipePc_wakeWriter_self

/-- And one of `pipe_write`. -/
theorem ends_endWrite (buf : List Byte) (size : Nat) (w : WriteStretch) (log : List PipeEvent) :
    (s.endWrite u f q buf size w).ends q (log ++ w.events (bytes buf)) =
      { toPipeState := (s.ends q log).toPipeState.afterWrite u (bytes buf) size w
        log := log ++ w.events (bytes buf) } := by
  unfold endWrite
  cases w with
  | wait =>
    simp only [Streams.ends, PipeState.afterWrite, WriteStretch.events, List.append_nil, goto]
    congr 2
    funext v
    simp only [Function.update_apply]
    split
    · simp [StreamPc.pipePc]
    · rfl
  | ret code b wake =>
    have hdelivered : ∀ bs, PipeEvent.delivered (.write code bs) = [] := fun _ => rfl
    have haccepted : ∀ bs, PipeEvent.accepted (.write code bs) = bs := fun _ => rfl
    simp only [Streams.ends, PipeState.afterWrite, WriteStretch.events, List.flatMap_append,
      List.flatMap_cons, List.flatMap_nil, List.append_nil, hdelivered, haccepted]
    congr 2
    · cases wake <;> exact Function.update_self ..
    · funext v
      simp only [returnFrom, goto, Function.update_apply]
      split
      · rfl
      · cases wake
        · rfl
        · exact StreamPc.pipePc_wakeReader_self

/-! ## A step, seen from a pipe -/

theorem readEnd_leads {fd : Int} (h : s.readEnd p fd = some q) : s.Leads q := by
  obtain ⟨f, hf, hst⟩ := Option.bind_eq_some_iff.mp h
  split at hst
  · rename_i i hi
    cases hst
    exact .inl ⟨p, fd, f, hf, .inl hi⟩
  · rename_i k _
    split at hst
    · rename_i hreceive
      cases hst
      exact .inr ⟨k, .inr hreceive⟩
    · exact absurd hst (by simp)
  · exact absurd hst (by simp)

theorem writeEnd_leads {fd : Int} (h : s.writeEnd p fd = some q) : s.Leads q := by
  obtain ⟨f, hf, hst⟩ := Option.bind_eq_some_iff.mp h
  split at hst
  · rename_i i hi
    cases hst
    exact .inl ⟨p, fd, f, hf, .inr hi⟩
  · rename_i k _
    split at hst
    · rename_i hsend
      cases hst
      exact .inr ⟨k, .inl hsend⟩
    · exact absurd hst (by simp)
  · exact absurd hst (by simp)

/-- A stretch is run on a pipe that something leads to, or that the thread was in. -/
theorem pipeAction_leads {b : PipeAction Nat} (h : s.pipeAction a = some (q, b)) :
    s.Leads q ∨ ∃ u, (s.pc u).pipe = some q := by
  unfold pipeAction at h
  split at h
  · obtain ⟨i, hi, he⟩ := Option.map_eq_some_iff.mp h
    cases he
    exact .inl (readEnd_leads hi)
  · obtain ⟨i, hi, he⟩ := Option.map_eq_some_iff.mp h
    cases he
    exact .inl (writeEnd_leads hi)
  · rename_i u _ _
    split at h
    · rename_i hu
      cases h
      exact .inr ⟨u, by rw [hu]; rfl⟩
    · rename_i hu
      cases h
      exact .inr ⟨u, by rw [hu]; rfl⟩
    · exact absurd h (by simp)
  · exact absurd h (by simp)

/-- The step runs the stretch `b` on the pipe `q`. -/
def Runs (s : Streams) (a : StreamAction) (q : Nat) (b : PipeAction Nat) (s' : Streams) : Prop :=
  s.pipeAction a = some (q, b) ∧
    ∀ log, (s.ends q log).perform (.use b) = some (s'.ends q (log ++ s.pipeEvents a q))

theorem runs_read {t : Streams} {fd : Int} {size : Nat} {data : Bool} (hu : s.pc u = .running)
    (hread : s.readEnd (s.owner u) fd = some q) (ht : Still q s t) :
    s.Runs (.read u fd size data) q (.call u (.read size)) (t.pipeReadStretch u f q size) := by
  have haction : s.pipeAction (.read u fd size data) = some (q, .call u (.read size)) := by
    simp only [pipeAction, hread, Option.map_some]
  refine ⟨haction, fun log => ?_⟩
  have hpc : (s.ends q log).pc u = .out := by
    show (s.pc u).pipePc q = .out
    rw [hu]
    rfl
  have hevents : s.pipeEvents (.read u fd size data) q = (pipeRead (t.pipe q) size).events := by
    rw [pipeEvents, haction, ht.pipe]
    exact if_pos rfl
  have hstretch := ends_pipeReadStretch (s := t) (u := u) (f := f) (q := q) size log
  rw [hevents, hstretch, ht.ends, ht.pipe]
  simp only [PipeEnds.perform, PipeState.step, hpc]
  rfl

theorem runs_write {t : Streams} {fd : Int} {buf : List Byte} {size : Nat}
    (hu : s.pc u = .running) (hwrite : s.writeEnd (s.owner u) fd = some q) (ht : Still q s t) :
    s.Runs (.write u fd buf size) q (.call u (.write (bytes buf) size))
      (t.endWrite u f q buf size (pipeWrite (t.pipe q) (bytes buf) size)) := by
  have haction : s.pipeAction (.write u fd buf size) =
      some (q, .call u (.write (bytes buf) size)) := by
    simp only [pipeAction, hwrite, Option.map_some]
  refine ⟨haction, fun log => ?_⟩
  have hpc : (s.ends q log).pc u = .out := by
    show (s.pc u).pipePc q = .out
    rw [hu]
    rfl
  have hevents : s.pipeEvents (.write u fd buf size) q =
      (pipeWrite (t.pipe q) (bytes buf) size).events (bytes buf) := by
    rw [pipeEvents, haction, ht.pipe]
    exact if_pos rfl
  have hstretch := ends_endWrite (s := t) (u := u) (f := f) (q := q) buf size
    (pipeWrite (t.pipe q) (bytes buf) size) log
  rw [hevents, hstretch, ht.ends, ht.pipe]
  simp only [PipeEnds.perform, PipeState.step, hpc]
  rfl

theorem runs_resumeRead {size : Nat} {data : Bool} {m : Mallocs}
    (hu : s.pc u = .reading f q size true) :
    s.Runs (.resume u data m) q (.resume u) (s.pipeReadStretch u f q size) := by
  have haction : s.pipeAction (.resume u data m) = some (q, .resume u) := by
    simp only [pipeAction, hu]
  refine ⟨haction, fun log => ?_⟩
  have hpc : ∀ log, (s.ends q log).pc u = .woken (.read size) := fun log => by
    show (s.pc u).pipePc q = _
    rw [hu]
    simp [StreamPc.pipePc]
  have hevents : s.pipeEvents (.resume u data m) q = (pipeRead (s.pipe q) size).events := by
    rw [pipeEvents, haction]
    simp only [if_true, PipeState.events, hpc]
    rfl
  rw [hevents, ends_pipeReadStretch]
  simp only [PipeEnds.perform, PipeState.step, PipeState.events, hpc]
  rfl

theorem runs_resumeWrite {buf : List Byte} {size : Nat} {data : Bool} {m : Mallocs}
    (hu : s.pc u = .writing f q buf size true) :
    s.Runs (.resume u data m) q (.resume u)
      (s.endWrite u f q buf size (pipeWriteLoop (s.pipe q) (bytes buf) size)) := by
  have haction : s.pipeAction (.resume u data m) = some (q, .resume u) := by
    simp only [pipeAction, hu]
  refine ⟨haction, fun log => ?_⟩
  have hpc : ∀ log, (s.ends q log).pc u = .woken (.write (bytes buf) size) := fun log => by
    show (s.pc u).pipePc q = _
    rw [hu]
    simp [StreamPc.pipePc]
  have hevents : s.pipeEvents (.resume u data m) q =
      (pipeWriteLoop (s.pipe q) (bytes buf) size).events (bytes buf) := by
    rw [pipeEvents, haction]
    simp only [if_true, PipeState.events, hpc]
    rfl
  rw [hevents, ends_endWrite]
  simp only [PipeEnds.perform, PipeState.step, PipeState.events, hpc]
  rfl

/-- No stretch is run on the pipe `q`; an end of it may be closed. -/
def Passes (s : Streams) (a : StreamAction) (q : Nat) (s' : Streams) : Prop :=
  (∀ b, s.pipeAction a ≠ some (q, b)) ∧ Closes q s s'

theorem flows_resume {data : Bool} {m : Mallocs} (hfresh : s.pipes ≤ q → s.pipe q = getPipe)
    (hs : s.resume u data m = some s') :
    (∃ b, s.Runs (.resume u data m) q b s') ∨ s.Passes (.resume u data m) q s' := by
  have hpass : ∀ t : Streams, (∀ b, s.pipeAction (.resume u data m) ≠ some (q, b)) →
      Still q s t → s.Passes (.resume u data m) q t := fun t hno ht => ⟨hno, .still ht⟩
  unfold Streams.resume at hs
  split at hs
  · rename_i f i size hu
    cases hs
    by_cases hi : i = q
    · subst hi
      exact .inl ⟨_, runs_resumeRead hu⟩
    · refine .inr (hpass _ (fun b => ?_) (still_pipeReadStretch hi ?_ size))
      · simp [pipeAction, hu, hi]
      · rw [hu]
        simp [StreamPc.pipePc, hi]
  · rename_i f i buf size hu
    cases hs
    by_cases hi : i = q
    · subst hi
      exact .inl ⟨_, runs_resumeWrite hu⟩
    · refine .inr (hpass _ (fun b => ?_) (still_endWrite hi ?_ buf size _))
      · simp [pipeAction, hu, hi]
      · rw [hu]
        simp [StreamPc.pipePc, hi]
  · rename_i f size hu
    cases hs
    exact .inr (hpass _ (by simp [pipeAction, hu])
      (still_serialReadStretch (by rw [hu]; rfl) f size data))
  · rename_i l hu
    exact .inr (hpass _ (by simp [pipeAction, hu])
      (still_resumeAccept (by rw [hu]; rfl) hfresh hs))
  · rename_i r hu
    cases hs
    exact .inr (hpass _ (by simp [pipeAction, hu]) (still_resumeConnect (by rw [hu]; rfl) r _))
  · rename_i r hu
    cases hs
    exact .inr (hpass _ (by simp [pipeAction, hu]) (still_resumeConnect (by rw [hu]; rfl) r _))
  · exact absurd hs (by simp)

theorem flows_call (hborn : (s.pc s.threads).pipePc q = .out)
    (hfresh : s.pipes ≤ q → s.pipe q = getPipe) (hv : caller a = some u)
    (hu : s.pc u = .running) (hs : s.call u a = some s') :
    (∃ b, s.Runs a q b s') ∨ s.Passes a q s' := by
  have hout : (s.pc u).pipePc q = .out := by rw [hu]; rfl
  have hpass : (∀ b, s.pipeAction a ≠ some (q, b)) → Closes q s s' →
      (∃ b, s.Runs a q b s') ∨ s.Passes a q s' := fun hno hclose => .inr ⟨hno, hclose⟩
  cases a with
  | openNull | openTerminal =>
    cases hs
    exact hpass (by simp [pipeAction]) (.still (still_openStream _))
  | pipe v malloc => exact hpass (by simp [pipeAction]) (.still (still_sysPipe hfresh hs))
  | socket v port malloc =>
    cases hs
    obtain ⟨hpipe, hpc, -⟩ :=
      sysSocket_pipes (Eq.refl (s.sysSocket (s.owner u) port malloc))
    exact hpass (by simp [pipeAction]) (.still (.of_eq hpipe hpc))
  | openInfo v info table copied =>
    obtain ⟨r, hr, rfl⟩ := Option.map_eq_some_iff.mp hs
    refine hpass (by simp [pipeAction]) (.still ?_)
    rcases sysOpenInfo_cases hr with ⟨index, h⟩ | ⟨-, h⟩
    · rw [h]
      have hindex : Still q s { s with infoIndex := index } := .of_eq rfl rfl
      exact hindex.trans (still_openStream _)
    · rw [h]
      exact .of_eq rfl rfl
  | listen v sock =>
    cases hs
    exact hpass (by simp [pipeAction]) (.still (still_sysListen sock))
  | accept v lsock m =>
    exact hpass (by simp [pipeAction]) (.still (still_sysAccept hout hfresh hs))
  | connect v sock port malloc =>
    exact hpass (by simp [pipeAction]) (.still (still_sysConnect hout hs))
  | shutDown v sock how =>
    cases hs
    exact hpass (by simp [pipeAction]) (closes_sysShutDown ..)
  | read v fd size data =>
    obtain rfl := Option.some.inj hv
    rcases sysRead_spec hu hs with ⟨i, f, t, hread, ht, rfl⟩ | ⟨hread, ht⟩
    · by_cases hi : i = q
      · subst hi
        exact .inl ⟨_, runs_read hu hread (ht i)⟩
      · exact hpass (by simp [pipeAction, hread, hi])
          (.still ((ht q).trans (still_pipeReadStretch hi (((ht q).pc _).trans hout) size)))
    · exact hpass (by simp [pipeAction, hread]) (.still (ht q))
  | write v fd buf size =>
    obtain rfl := Option.some.inj hv
    rcases sysWrite_spec hu hs with ⟨i, f, t, hwrite, ht, rfl⟩ | ⟨hwrite, ht⟩
    · by_cases hi : i = q
      · subst hi
        exact .inl ⟨_, runs_write hu hwrite (ht i)⟩
      · exact hpass (by simp [pipeAction, hwrite, hi])
          (.still ((ht q).trans (still_endWrite hi (((ht q).pc _).trans hout) buf size _)))
    · exact hpass (by simp [pipeAction, hwrite]) (.still (ht q))
  | close v fd => exact hpass (by simp [pipeAction]) (closes_sysClose hs)
  | dup2 v oldfd newfd => exact hpass (by simp [pipeAction]) (closes_sysDup2 hs)
  | exec v i call =>
    obtain ⟨-, hs⟩ := Option.ite_none_right_eq_some.mp hs
    cases hs
    exact hpass (by simp [pipeAction]) (.still (still_sysExec hborn ..))
  | createThread v =>
    cases hs
    exact hpass (by simp [pipeAction]) (.still (still_spawnThread hborn _))
  | exit v =>
    cases hs
    have hgoto : Still q s (s.goto u (.exiting 0)) := still_goto hout rfl
    exact hpass (by simp [pipeAction]) (.still (hgoto.trans (.of_eq rfl rfl)))
  | reap | resume | proceed | rxReady | timeout => exact absurd hv (by simp [caller])

/-- **Seen from the pipe `q`, a step of the kernel is a stretch on it, or closes an end of it, or is
nothing.** -/
theorem flows (hborn : (s.pc s.threads).pipePc q = .out)
    (hfresh : s.pipes ≤ q → s.pipe q = getPipe) (hs : s.perform a = some s') :
    (∃ b, s.Runs a q b s') ∨ s.Passes a q s' := by
  rcases perform_cases hs with ⟨p, rfl, -, rfl⟩ | ⟨u, data, m, rfl, -, hs⟩ |
    ⟨u, rfl, -, hs⟩ | ⟨rfl, rfl⟩ | ⟨u, r, rfl, hu, rfl⟩ | ⟨u, hv, -, hu, hs⟩
  · exact .inr ⟨by simp [pipeAction], .still (.of_eq rfl rfl)⟩
  · exact flows_resume hfresh hs
  · exact .inr ⟨by simp [pipeAction], closes_proceed hs⟩
  · exact .inr ⟨by simp [pipeAction], .still ⟨rfl, fun u => StreamPc.pipePc_wakeSerial⟩⟩
  · exact .inr ⟨by simp [pipeAction], .still (still_goto (by rw [hu]; rfl) rfl)⟩
  · exact flows_call hborn hfresh hv hu hs

end Streams

end TinyOS
