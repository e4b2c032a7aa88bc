import TinyOS.Stream.Delivery

/-!
# What a connection delivers

A pipe of the kernel is a FIFO, whoever uses it. Here is who does: **the bytes of a pipe are written
through one stream and read through one stream, for as long as the pipe exists** (`ends_deliver`). For
a pipe of `Pipe` these are its two ends, whatever fids denote them; for a pipe of a connection they are
the sockets of the two peers. So what one peer writes is what the other one reads, in the same order,
and nobody else can take a byte out or put one in. That stays so when the sockets are shut down or
closed, and when a client is accepted a second time and gets other pipes; as long as no pipe is used
after it was freed, and no socket is closed to which a request or an `Accept` still leads (`Kept`).

A call looks its stream up once, and may then sleep in the pipe while its fid is closed. The history
of a run remembers for each thread the stream of its last call (`Moves.via`), and for each pipe what
the calls returned and through which streams they were made (`Moves.moved`).
-/

set_option autoImplicit false

namespace TinyOS

open Transition

/-- What the calls of `Read` and `Write` have moved. -/
structure Moves where
  via : Nat → Option Stream
  moved : Nat → List (Option Stream × PipeEvent)

namespace Streams

/-- The stream that the fid denotes for the thread. -/
def streamOf (s : Streams) (u : Nat) (fd : Int) : Option Stream :=
  (s.getFCB (s.owner u) fd).bind fun f => (s.FT f).stream

/-- The thread that runs a stretch of a `Read` or a `Write`. -/
def mover : StreamAction → Option Nat
  | .read u _ _ _ | .write u _ _ _ | .resume u _ _ => some u
  | _ => none

end Streams

namespace Moves

/-- A call looks its stream up. -/
def look (s : Streams) (a : StreamAction) (h : Moves) : Nat → Option Stream :=
  match a with
  | .read u fd _ _ | .write u fd _ _ => Function.update h.via u (s.streamOf u fd)
  | _ => h.via

def note (s : Streams) (a : StreamAction) (_ : Streams) (h : Moves) : Moves where
  via := h.look s a
  moved q := h.moved q ++
    (s.pipeEvents a q).map fun e => ((Streams.mover a).bind (h.look s a), e)

end Moves

/-- The kernel, with a history of its calls. -/
def movesSys : Sys (Streams × Moves) StreamAction :=
  streamSys.record { via := fun _ => none, moved := fun _ => [] } Moves.note

/-- What is done through the stream `w` is a `Write`, and what is done through `r` is a `Read`. -/
inductive Through (w r : Stream) : Option Stream × PipeEvent → Prop where
  | write (code : Int) (bytes : List Byte) : Through w r (some w, .write code bytes)
  | read (code : Int) (bytes : List Byte) : Through w r (some r, .read code bytes)

/-- The one of the two streams that a call goes through. -/
def PipeCall.through (w r : Stream) : PipeCall → Stream
  | .write _ _ => w
  | .read _ => r

namespace Streams

variable {s s' : Streams} {a : StreamAction} {n : Sockets} {q k u : Nat} {o o' : Stream}

/-- The stream writes into the pipe `q`. -/
def WriteEnd (s : Streams) (q : Nat) (o : Stream) : Prop :=
  (o = .writer q ∧ ∃ f, (s.FT f).stream = some o) ∨ ∃ k, o = .socket k ∧ (s.scb k).send = some q

/-- The stream reads from the pipe `q`. -/
def ReadEnd (s : Streams) (q : Nat) (o : Stream) : Prop :=
  (o = .reader q ∧ ∃ f, (s.FT f).stream = some o) ∨
    ∃ k, o = .socket k ∧ (s.scb k).receive = some q

/-! ## The ends of a pipe -/

/-- The ends that an `Accept` gives are those of new pipes. -/
theorem serve_new {l r i f : Nat} {rs : List Nat} {port fid : Int} {m : Mallocs}
    (hr : (n.req r).socket < n.scbs) (hi : i = (n.req r).socket ∨ i = n.scbs)
    (hend : (n.serve u l r rs f port fid m).Ends i q) : n.pipes ≤ q := by
  have hnew : ∀ n' : Sockets, n'.pipes = n.pipes →
      n'.sendPipe m = some q ∨ n'.receivePipe m = some q → n.pipes ≤ q := by
    intro n' hpipes hq
    unfold Sockets.sendPipe Sockets.receivePipe at hq
    grind
  refine hnew (((n.goto u .busy).popRequest l r rs).create f port fid) rfl ?_
  unfold Sockets.Ends at hend
  rw [Sockets.serve, Sockets.connectPeers_eq _ (Nat.ne_of_gt hr)] at hend
  rcases hi with rfl | rfl
  · simp only [Function.update_self] at hend
    exact hend.symm
  · simp only [Function.update_of_ne (Nat.ne_of_gt hr), Function.update_self] at hend
    exact hend

/-- **No socket gets an end of an old pipe.** -/
theorem SocketStep.old_ends (ha : s.sockets.Allotted) (hs : SocketStep s a n) (hq : q < s.pipes) :
    ((n.scb k).send = some q → (s.scb k).send = some q) ∧
      ((n.scb k).receive = some q → (s.scb k).receive = some q) := by
  cases hs with
  | quiet | forget | pipe | sleep | leave | timeout | spawn => exact ⟨id, id⟩
  | create f port fid _ =>
    simp only [Sockets.create, Function.update_apply]
    split
    · simp
    · exact ⟨id, id⟩
  | @listen u i sock _ _ _ _ _ =>
    simp only [Sockets.listen, Sockets.modifySCB, Function.update_apply]
    split
    · simp
    · exact ⟨id, id⟩
  | @refuse u l r m rs _ _ _ _ =>
    change ((((s.sockets.goto u .busy).popRequest l r rs).scb k).send = some q → _) ∧
      ((((s.sockets.goto u .busy).popRequest l r rs).scb k).receive = some q → _)
    rw [Sockets.popRequest_scb]
    exact ⟨id, id⟩
  | @serve u l r m rs f fid _ _ hqueue _ =>
    have hr : (s.req r).socket < s.scbs := ha.req r (ha.queue l r (SCB.mem_queue hqueue))
    change ((((s.sockets.serve u l r rs f (s.scb l).port fid m).scb k).send = some q → _)) ∧
      (((s.sockets.serve u l r rs f (s.scb l).port fid m).scb k).receive = some q → _)
    by_cases hk : k = (s.req r).socket ∨ k = s.scbs
    · have hnew : ¬ (s.sockets.serve u l r rs f (s.scb l).port fid m).Ends k q := fun hend =>
        absurd (serve_new hr hk hend) (Nat.not_le_of_lt hq)
      exact ⟨fun hsend => absurd (.inl hsend) hnew, fun hreceive => absurd (.inr hreceive) hnew⟩
    · obtain ⟨hkr, hks⟩ := not_or.mp hk
      have hscb : (s.sockets.serve u l r rs f (s.scb l).port fid m).scb k = _ :=
        Sockets.serve_scb hr hkr hks
      rw [hscb]
      exact ⟨id, id⟩
  | request =>
    rw [Sockets.request_scb]
    exact ⟨id, id⟩
  | answer =>
    unfold Sockets.answer
    simp only
    split <;> exact ⟨id, id⟩
  | @shut u sock how _ =>
    have hshuts := Sockets.shuts_shutDown s.sockets how (denoted s.toFileTables (s.owner u) sock)
    exact ⟨Sockets.eq_of_lost (hshuts.send k), Sockets.eq_of_lost (hshuts.receive k)⟩
  | close _ _ _ _ hc =>
    obtain ⟨hsend, hreceive⟩ := Sockets.close_erases hc k
    exact ⟨Sockets.eq_of_lost hsend, Sockets.eq_of_lost hreceive⟩

/-- An end of a pipe that an FCB holds was held before, or the step has made the pipe. -/
theorem stream_new {f : Nat} (hs : s.perform a = some s') (ho : o = .reader q ∨ o = .writer q)
    (hst : (s'.FT f).stream = some o) :
    (∃ g, (s.FT g).stream = some o) ∨ s'.scb = s.scb ∧ q = s.pipes := by
  have hopen : ∀ (t : Streams) (g : Nat) (st : Stream), ((t.openFCB g st).FT f).stream = some o →
      (t.FT f).stream = some o ∨ st = o := by
    intro t g st h
    simp only [Streams.openFCB, FileTables.modifyFCB_FT] at h
    split at h
    · exact .inr (Option.some.inj h)
    · exact .inl h
  rcases opens_or_closes hs with ⟨-, hopens⟩ | ⟨g, st, -, -, -, hk⟩
  · cases hopens with
    | none hk =>
      rw [hk.stream] at hst
      exact .inl ⟨f, hst⟩
    | @device g st hd hk =>
      rw [hk.stream] at hst
      rcases hopen _ _ _ hst with hold | rfl
      · exact .inl ⟨f, hold⟩
      · rcases ho with rfl | rfl <;> simp [Stream.device] at hd
    | @socket g hlt hk =>
      rw [hk.stream] at hst
      rcases hopen _ _ _ hst with hold | rfl
      · exact .inl ⟨f, hold⟩
      · rcases ho with ho | ho <;> cases ho
    | @pipe g g' hlt hscb hk =>
      rw [hk.stream] at hst
      rcases hopen _ _ _ hst with hst | rfl
      · rcases hopen _ _ _ hst with hold | rfl
        · exact .inl ⟨f, hold⟩
        · rcases ho with ho | ho <;> cases ho
          exact .inr ⟨hscb, rfl⟩
      · rcases ho with ho | ho <;> cases ho
        exact .inr ⟨hscb, rfl⟩
  · rw [hk.stream] at hst
    exact .inl ⟨f, hst⟩

/-- **Nothing becomes an end of an old pipe.** -/
theorem end_old (ha : s.sockets.Allotted) (hs : s.perform a = some s') (hq : q < s.pipes) :
    (s'.WriteEnd q o → s.WriteEnd q o) ∧ (s'.ReadEnd q o → s.ReadEnd q o) := by
  have hends := fun k => (socketStep hs).old_ends (k := k) ha hq
  constructor
  · rintro (⟨rfl, f, hst⟩ | ⟨k, rfl, hsend⟩)
    · rcases stream_new hs (.inr rfl) hst with hold | ⟨-, hnew⟩
      · exact .inl ⟨rfl, hold⟩
      · omega
    · exact .inr ⟨k, rfl, (hends k).1 hsend⟩
  · rintro (⟨rfl, f, hst⟩ | ⟨k, rfl, hreceive⟩)
    · rcases stream_new hs (.inl rfl) hst with hold | ⟨-, hnew⟩
      · exact .inl ⟨rfl, hold⟩
      · omega
    · exact .inr ⟨k, rfl, (hends k).2 hreceive⟩

/-- **A new pipe has one stream at each end.** -/
theorem end_new {object : Nat → Stream} (hn : s.Named object) (ha : s.sockets.Allotted)
    (hw : s'.sockets.Wired) (hs : s.perform a = some s') (hq : s.pipes ≤ q) :
    (s'.WriteEnd q o → s'.WriteEnd q o' → o = o') ∧
      (s'.ReadEnd q o → s'.ReadEnd q o' → o = o') := by
  -- A pipe of `Pipe` is no socket's.
  have hmixed : ∀ f k st, st = .reader q ∨ st = .writer q → (s'.FT f).stream = some st →
      ¬ s'.sockets.Ends k q := by
    intro f k st hst hf hend
    rcases stream_new hs hst hf with ⟨g, hg⟩ | ⟨hscb, -⟩
    · obtain ⟨hlt, hobject⟩ := hn.stream g _ hg
      have := hn.pipe _ hlt q (by rwa [hobject])
      omega
    · change (s'.scb k).send = some q ∨ (s'.scb k).receive = some q at hend
      rw [hscb] at hend
      have := hend.elim (ha.send k q) (ha.receive k q)
      change q < s.pipes at this
      omega
  constructor
  · rintro (⟨rfl, f, hf⟩ | ⟨k, rfl, hk⟩) (⟨rfl, g, hg⟩ | ⟨j, rfl, hj⟩)
    · rfl
    · exact absurd (.inl hj) (hmixed f j _ (.inr rfl) hf)
    · exact absurd (.inl hk) (hmixed g k _ (.inr rfl) hg)
    · rw [hw.send k j q hk hj]
  · rintro (⟨rfl, f, hf⟩ | ⟨k, rfl, hk⟩) (⟨rfl, g, hg⟩ | ⟨j, rfl, hj⟩)
    · rfl
    · exact absurd (.inr hj) (hmixed f j _ (.inl rfl) hf)
    · exact absurd (.inr hk) (hmixed g k _ (.inl rfl) hg)
    · rw [hw.receive k j q hk hj]

/-! ## The calls -/

theorem streamOf_readEnd {fd : Int} (h : s.readEnd (s.owner u) fd = some q) :
    ∃ o, s.streamOf u fd = some o ∧ s.ReadEnd q o := by
  obtain ⟨f, hf, hst⟩ := Option.bind_eq_some_iff.mp h
  have hstream : s.streamOf u fd = (s.FT f).stream := by
    rw [streamOf, hf, Option.bind_some]
  split at hst
  · rename_i i hi
    cases hst
    exact ⟨.reader q, by rw [hstream, hi], .inl ⟨rfl, f, hi⟩⟩
  · rename_i k hk
    split at hst
    · rename_i hreceive
      cases hst
      exact ⟨.socket k, by rw [hstream, hk], .inr ⟨k, rfl, hreceive⟩⟩
    · exact absurd hst (by simp)
  · exact absurd hst (by simp)

theorem streamOf_writeEnd {fd : Int} (h : s.writeEnd (s.owner u) fd = some q) :
    ∃ o, s.streamOf u fd = some o ∧ s.WriteEnd q o := by
  obtain ⟨f, hf, hst⟩ := Option.bind_eq_some_iff.mp h
  have hstream : s.streamOf u fd = (s.FT f).stream := by
    rw [streamOf, hf, Option.bind_some]
  split at hst
  · rename_i i hi
    cases hst
    exact ⟨.writer q, by rw [hstream, hi], .inl ⟨rfl, f, hi⟩⟩
  · rename_i k hk
    split at hst
    · rename_i hsend
      cases hst
      exact ⟨.socket k, by rw [hstream, hk], .inr ⟨k, rfl, hsend⟩⟩
    · exact absurd hst (by simp)
  · exact absurd hst (by simp)

/-- The thread is in a call on the pipe. -/
def In (pc : PipePc) (c : PipeCall) : Prop := pc = .asleep c ∨ pc = .woken c

theorem in_afterRead {t : PipeState Nat} {v size : Nat} {r : ReadStretch} {c : PipeCall}
    (h : In ((t.afterRead v size r).pc u) c) : In (t.pc u) c ∨ u = v ∧ c = .read size := by
  cases r with
  | wait =>
    simp only [PipeState.afterRead, Function.update_apply] at h
    split at h
    · rcases h with h | h <;> cases h
      exact .inr ⟨‹_›, rfl⟩
    · exact .inl h
  | ret code bytes b wake =>
    simp only [PipeState.afterRead, Function.update_apply] at h
    split at h
    · rcases h with h | h <;> cases h
    · split at h
      · exact .inl (PipePc.spaceBroadcast_call h)
      · exact .inl h

theorem in_afterWrite {t : PipeState Nat} {v size : Nat} {buf : Nat → Byte} {w : WriteStretch}
    {c : PipeCall} (h : In ((t.afterWrite v buf size w).pc u) c) :
    In (t.pc u) c ∨ u = v ∧ c = .write buf size := by
  cases w with
  | wait =>
    simp only [PipeState.afterWrite, Function.update_apply] at h
    split at h
    · rcases h with h | h <;> cases h
      exact .inr ⟨‹_›, rfl⟩
    · exact .inl h
  | ret code b wake =>
    simp only [PipeState.afterWrite, Function.update_apply] at h
    split at h
    · rcases h with h | h <;> cases h
    · split at h
      · exact .inl (PipePc.dataBroadcast_call h)
      · exact .inl h

/-- A stretch leaves everyone in the call that he was in, or starts one. -/
theorem in_of_step {t t' : PipeState Nat} {b : PipeAction Nat} {c : PipeCall}
    (hs : t.step b = some t') (h : In (t'.pc u) c) : In (t.pc u) c ∨ b = .call u c := by
  unfold PipeState.step at hs
  split at hs
  · split at hs
    · cases hs
      exact (in_afterRead h).imp_right fun ⟨hu, hc⟩ => by rw [hu, hc]
    · cases hs
      exact (in_afterWrite h).imp_right fun ⟨hu, hc⟩ => by rw [hu, hc]
    · exact absurd hs (by simp)
  · split at hs
    · rename_i hv
      cases hs
      rcases in_afterRead h with h | ⟨rfl, rfl⟩
      · exact .inl h
      · exact .inl (.inr hv)
    · rename_i hv
      cases hs
      rcases in_afterWrite h with h | ⟨rfl, rfl⟩
      · exact .inl h
      · exact .inl (.inr hv)
    · exact absurd hs (by simp)

theorem in_of_writerClose {t : PipeEnds Nat} {c : PipeCall} (h : In (t.writerClose.pc u) c) :
    In (t.pc u) c := by
  unfold PipeEnds.writerClose at h
  split at h
  · exact h
  · exact PipePc.dataBroadcast_call h

theorem in_of_readerClose {t : PipeEnds Nat} {c : PipeCall} (h : In (t.readerClose.pc u) c) :
    In (t.pc u) c := by
  unfold PipeEnds.readerClose at h
  split at h
  · exact h
  · exact PipePc.spaceBroadcast_call (in_of_writerClose h)

/-- **A thread comes into a pipe by a call.** -/
theorem in_of_perform (hr : streamSys.Reach s) (hs : s.perform a = some s') {c : PipeCall}
    (h : In ((s'.pc u).pipePc q) c) :
    In ((s.pc u).pipePc q) c ∨ s.pipeAction a = some (q, .call u c) := by
  rcases flows (born_out (allotted hr) q) ((unmade hr).fresh q) hs with ⟨b, hb, hruns⟩ | ⟨-, hclose⟩
  · obtain ⟨t, ht, heq⟩ := Option.map_eq_some_iff.mp (hruns [])
    have hpc : (s'.pc u).pipePc q = t.pc u := congrArg (fun e : PipeEnds Nat => e.pc u) heq.symm
    rw [hpc] at h
    rcases in_of_step ht h with h | rfl
    · exact .inl h
    · exact .inr hb
  · left
    cases hclose with
    | still hstill => rwa [hstill.pc] at h
    | reader _ heq =>
      have hpc := congrArg (fun e : PipeEnds Nat => e.pc u) (heq [])
      exact in_of_readerClose (t := s.ends q []) (hpc ▸ h)
    | writer _ heq =>
      have hpc := congrArg (fun e : PipeEnds Nat => e.pc u) (heq [])
      exact in_of_writerClose (t := s.ends q []) (hpc ▸ h)

/-- A stretch of the call `c` returns what such a call returns. -/
theorem through_events {t : PipeState Nat} {b : PipeAction Nat} {e : PipeEvent}
    (he : e ∈ t.events b) : ∃ u c, (b = .call u c ∨ b = .resume u ∧ t.pc u = .woken c) ∧
      ∀ w r, Through w r (some (c.through w r), e) := by
  have hread : ∀ size (x : ReadStretch), e ∈ x.events →
      ∀ w r, Through w r (some (PipeCall.through w r (.read size)), e) := by
    intro size x hx w r
    cases x with
    | wait => cases hx
    | ret code bytes b wake =>
      obtain rfl := List.mem_singleton.mp hx
      exact .read code bytes
  have hwrite : ∀ buf size (x : WriteStretch), e ∈ x.events buf →
      ∀ w r, Through w r (some (PipeCall.through w r (.write buf size)), e) := by
    intro buf size x hx w r
    cases x with
    | wait => cases hx
    | ret code b wake =>
      obtain rfl := List.mem_singleton.mp hx
      exact .write code _
  cases b with
  | call u c =>
    refine ⟨u, c, .inl rfl, ?_⟩
    cases c with
    | read size => exact hread size _ he
    | write buf size => exact hwrite buf size _ he
  | resume u =>
    simp only [PipeState.events] at he
    split at he
    · exact ⟨u, _, .inr ⟨rfl, ‹_›⟩, hread _ _ he⟩
    · exact ⟨u, _, .inr ⟨rfl, ‹_›⟩, hwrite _ _ _ he⟩
    · cases he

/-- A stretch is run on a pipe that was made. -/
theorem pipeAction_lt {b : PipeAction Nat} (hr : streamSys.Reach s)
    (hb : s.pipeAction a = some (q, b)) : q < s.pipes := by
  obtain ⟨object, hn⟩ := named hr
  rcases pipeAction_leads hb with hleads | ⟨u, hu⟩
  · exact leads_lt hn (allotted hr) hleads
  · exact (unmade hr).inside u q hu

theorem pipeEvents_new (hr : streamSys.Reach s) (hq : s.pipes ≤ q) : s.pipeEvents a q = [] := by
  unfold pipeEvents
  split
  · rename_i i b hb
    have hlt := pipeAction_lt hr hb
    exact if_neg (by omega)
  · rfl

/-! ## Who moves the bytes of a pipe -/

/-- `w q` and `r q` are the streams at the ends of the pipe `q`, as long as it has ends, and all that
is done in it is done through them. -/
structure Owned (s : Streams) (h : Moves) (w r : Nat → Stream) : Prop where
  write : ∀ q o, s.WriteEnd q o → o = w q
  read : ∀ q o, s.ReadEnd q o → o = r q
  inside : ∀ u q c, In ((s.pc u).pipePc q) c → h.via u = some (c.through (w q) (r q))
  moved : ∀ q, ∀ e ∈ h.moved q, Through (w q) (r q) e
  fresh : ∀ q, s.pipes ≤ q → h.moved q = []

variable {h : Moves} {w r : Nat → Stream}

/-- A call that starts on the pipe goes through the stream that it looks up. -/
theorem Owned.looks (ho : s.Owned h w r) {c : PipeCall}
    (ha : s.pipeAction a = some (q, .call u c)) :
    mover a = some u ∧ h.look s a u = some (c.through (w q) (r q)) := by
  unfold pipeAction at ha
  split at ha
  · obtain ⟨i, hi, he⟩ := Option.map_eq_some_iff.mp ha
    cases he
    obtain ⟨o, hstream, hend⟩ := streamOf_readEnd hi
    refine ⟨rfl, ?_⟩
    rw [Moves.look, Function.update_self, hstream, ho.read q o hend]
    rfl
  · obtain ⟨i, hi, he⟩ := Option.map_eq_some_iff.mp ha
    cases he
    obtain ⟨o, hstream, hend⟩ := streamOf_writeEnd hi
    refine ⟨rfl, ?_⟩
    rw [Moves.look, Function.update_self, hstream, ho.write q o hend]
    rfl
  · split at ha <;> cases ha
  · cases ha

/-- A thread that is in a pipe looks up nothing. -/
theorem look_of_in (hs : s.perform a = some s') {c : PipeCall} (hin : In ((s.pc u).pipePc q) c) :
    h.look s a u = h.via u := by
  have hbusy : ∀ v, caller a = some v → u ≠ v := by
    rintro v hv rfl
    rcases perform_cases hs with ⟨p, rfl, -⟩ | ⟨v, data, m, rfl, -⟩ | ⟨v, rfl, -⟩ | ⟨rfl, -⟩ |
      ⟨v, r, rfl, -⟩ | ⟨v, hv', -, hrun, -⟩
    case inr.inr.inr.inr.inr =>
      obtain rfl := Option.some.inj (hv'.symm.trans hv)
      rw [hrun] at hin
      rcases hin with hin | hin <;> cases hin
    all_goals cases hv
  unfold Moves.look
  split
  · exact Function.update_of_ne (hbusy _ rfl) ..
  · exact Function.update_of_ne (hbusy _ rfl) ..
  · rfl

/-- What a step moves goes through the ends. -/
theorem Owned.events (ho : s.Owned h w r) (hs : s.perform a = some s') {e : PipeEvent}
    (he : e ∈ s.pipeEvents a q) : Through (w q) (r q) ((mover a).bind (h.look s a), e) := by
  unfold pipeEvents at he
  split at he
  case h_2 => cases he
  rename_i i b hb
  split at he
  case isFalse => cases he
  rename_i hi
  subst hi
  obtain ⟨u, c, hcall, hthrough⟩ := through_events he
  rcases hcall with rfl | ⟨rfl, hwoken⟩
  · obtain ⟨hmover, hlook⟩ := ho.looks hb
    rw [hmover, Option.bind_some, hlook]
    exact hthrough _ _
  · have hin : In ((s.pc u).pipePc i) c := .inr hwoken
    have hmover : mover a = some u := by
      unfold pipeAction at hb
      split at hb
      · obtain ⟨j, -, he⟩ := Option.map_eq_some_iff.mp hb
        cases he
      · obtain ⟨j, -, he⟩ := Option.map_eq_some_iff.mp hb
        cases he
      · split at hb <;> cases hb <;> rfl
      · cases hb
    rw [hmover, Option.bind_some, look_of_in hs hin, ho.inside u i c hin]
    exact hthrough _ _

/-- **A step keeps the ends of the pipes that there are.** -/
theorem Owned.step (ho : s.Owned h w r) (hr : streamSys.Reach s) (hs : s.perform a = some s') :
    ∃ w' r', s'.Owned (h.note s a s') w' r' ∧ ∀ q < s.pipes, w' q = w q ∧ r' q = r q := by
  obtain ⟨object, hn⟩ := named hr
  have ha := allotted hr
  have hw : s'.sockets.Wired := wired (hr.next hs)
  have hpipes := (socketStep hs).mono.2
  have hchoose : ∀ q, ∃ o o', (∀ x, s'.WriteEnd q x → x = o) ∧ (∀ x, s'.ReadEnd q x → x = o') ∧
      (q < s.pipes → o = w q ∧ o' = r q) := by
    intro q
    rcases Nat.lt_or_ge q s.pipes with hq | hq
    · have hold := fun x => end_old (o := x) ha hs hq
      exact ⟨w q, r q, fun x hx => ho.write q x ((hold x).1 hx),
        fun x hx => ho.read q x ((hold x).2 hx), fun _ => ⟨rfl, rfl⟩⟩
    · have hnew : ∀ x y, (s'.WriteEnd q x → s'.WriteEnd q y → x = y) ∧
          (s'.ReadEnd q x → s'.ReadEnd q y → x = y) := fun _ _ => end_new hn ha hw hs hq
      have hone : ∀ P : Stream → Prop, (∀ x y, P x → P y → x = y) → ∃ o, ∀ x, P x → x = o := by
        intro P hP
        by_cases hex : ∃ o, P o
        · obtain ⟨o, hpo⟩ := hex
          exact ⟨o, fun x hx => hP x o hx hpo⟩
        · exact ⟨.null, fun x hx => absurd ⟨x, hx⟩ hex⟩
      obtain ⟨o, hwrite⟩ := hone _ fun x y => (hnew x y).1
      obtain ⟨o', hread⟩ := hone _ fun x y => (hnew x y).2
      exact ⟨o, o', hwrite, hread, fun hlt => absurd hlt (Nat.not_lt_of_le hq)⟩
  choose w' r' hwrite hread hsame using hchoose
  have hold : ∀ q c, w' q = w q ∧ r' q = r q → PipeCall.through (w' q) (r' q) c =
      PipeCall.through (w q) (r q) c := fun q c he => by rw [he.1, he.2]
  refine ⟨w', r', ⟨hwrite, hread, fun u q c hin => ?_, fun q e he => ?_, fun q hq => ?_⟩, hsame⟩
  · rcases in_of_perform hr hs hin with hbefore | hcall
    · have hpipe : (s.pc u).pipe = some q := by
        refine StreamPc.pipe_of_pipePc fun hout => ?_
        rcases hbefore with hb | hb <;> rw [hout] at hb <;> cases hb
      rw [hold q c (hsame q ((unmade hr).inside u q hpipe)), ← ho.inside u q c hbefore]
      exact look_of_in hs hbefore
    · rw [hold q c (hsame q (pipeAction_lt hr hcall))]
      exact (ho.looks hcall).2
  · rcases List.mem_append.mp he with he | he
    · have hlt : q < s.pipes := by
        by_contra hge
        rw [ho.fresh q (Nat.le_of_not_lt hge)] at he
        cases he
      rw [(hsame q hlt).1, (hsame q hlt).2]
      exact ho.moved q e he
    · obtain ⟨e, hevent, rfl⟩ := List.mem_map.mp he
      have hlt : q < s.pipes := by
        by_contra hge
        rw [pipeEvents_new hr (Nat.le_of_not_lt hge)] at hevent
        cases hevent
      rw [(hsame q hlt).1, (hsame q hlt).2]
      exact ho.events hs hevent
  · have hge : s.pipes ≤ q := hpipes.trans hq
    show h.moved q ++ List.map _ (s.pipeEvents a q) = []
    rw [ho.fresh q hge, pipeEvents_new hr hge]
    rfl

theorem Owned.initial {s : Streams} (hi : streamSys.init s) :
    s.Owned { via := fun _ => none, moved := fun _ => [] } (fun _ => .null) fun _ => .null := by
  obtain ⟨serialPorts, rfl⟩ := hi
  refine ⟨?_, ?_, fun u q c hin => ?_, fun q e he => absurd he (by simp), fun _ _ => rfl⟩
  · rintro q o (⟨-, f, hf⟩ | ⟨k, -, hk⟩)
    · simp [Streams.initial, FileTables.initializeFiles] at hf
    · simp [Streams.initial] at hk
  · rintro q o (⟨-, f, hf⟩ | ⟨k, -, hk⟩)
    · simp [Streams.initial, FileTables.initializeFiles] at hf
    · simp [Streams.initial] at hk
  · have hout : (((Streams.initial serialPorts).pc u).pipePc q) = .out := by
      simp only [Streams.initial]
      split <;> rfl
    rcases hin with hin | hin <;> rw [hout] at hin <;> cases hin

/-- **The ends of a pipe stay, in every run.** -/
theorem owned_runIf {C : Streams × Moves → StreamAction → Prop} {x x' : Streams × Moves}
    {as : List StreamAction} (hrun : movesSys.RunIf C x as x') :
    ∀ {w r : Nat → Stream}, streamSys.Reach x.1 → x.1.Owned x.2 w r →
      ∃ w' r', x'.1.Owned x'.2 w' r' ∧ ∀ q < x.1.pipes, w' q = w q ∧ r' q = r q := by
  induction hrun with
  | nil => exact fun _ ho => ⟨_, _, ho, fun _ _ => ⟨rfl, rfl⟩⟩
  | cons _ hs _ ih =>
    intro w r hr ho
    obtain ⟨s', hs', rfl⟩ := Option.map_eq_some_iff.mp hs
    obtain ⟨w₁, r₁, ho₁, hsame₁⟩ := ho.step hr hs'
    obtain ⟨w', r', ho', hsame⟩ := ih (hr.next hs') ho₁
    refine ⟨w', r', ho', fun q hq => ?_⟩
    obtain ⟨hw, hr⟩ := hsame q (Nat.lt_of_lt_of_le hq (socketStep hs').mono.2)
    exact ⟨hw.trans (hsame₁ q hq).1, hr.trans (hsame₁ q hq).2⟩

theorem owned {C : Streams × Moves → StreamAction → Prop} {x : Streams × Moves}
    (hr : movesSys.ReachIf C x) : streamSys.Reach x.1 ∧ ∃ w r, x.1.Owned x.2 w r := by
  induction hr with
  | @init x hi =>
    obtain ⟨s, h⟩ := x
    obtain ⟨hi, rfl⟩ := hi
    exact ⟨.init hi, _, _, .initial hi⟩
  | step _ _ hs ih =>
    obtain ⟨hr, w, r, ho⟩ := ih
    obtain ⟨s', hs', rfl⟩ := Option.map_eq_some_iff.mp hs
    obtain ⟨w', r', ho', -⟩ := ho.step hr hs'
    exact ⟨hr.next hs', w', r', ho'⟩

/-! ## In order -/

/-- The call asks for something, no pipe is used after it was freed, and no socket is closed that
somebody may still get to. -/
structure Kept (s : Streams) (a : StreamAction) : Prop where
  size : a.SizePos
  proper : s.Proper a
  closes : s.ClosesUnsought a

instance (s : Streams) (a : StreamAction) : Decidable (s.Kept a) :=
  decidable_of_iff (a.SizePos ∧ s.Proper a ∧ s.ClosesUnsought a)
    ⟨fun h => ⟨h.1, h.2.1, h.2.2⟩, fun h => ⟨h.1, h.2, h.3⟩⟩

theorem closings_moves (b b' : PipeCB) : (b.closings b').flatMap PipeEvent.delivered = [] ∧
    (b.closings b').flatMap PipeEvent.accepted = [] := by
  unfold PipeCB.closings
  split <;> split <;> exact ⟨rfl, rfl⟩

/-- What the calls have moved is what the pipes have seen moved. -/
theorem moved_record {x : Streams × Moves} {C : StreamAction → Prop}
    (hr : movesSys.ReachIf (fun _ a => C a) x) :
    ∃ e, pipesSys.ReachIf (fun _ a => C a) (x.1, e) ∧
      ∀ q, (x.2.moved q).flatMap (fun m => m.2.delivered) = (e q).flatMap PipeEvent.delivered ∧
        (x.2.moved q).flatMap (fun m => m.2.accepted) = (e q).flatMap PipeEvent.accepted := by
  induction hr with
  | @init x hi =>
    obtain ⟨hi, hx⟩ := hi
    exact ⟨fun _ => [], .init ⟨hi, rfl⟩, fun q => by rw [hx]; exact ⟨rfl, rfl⟩⟩
  | @step x x' a _ hc hs ih =>
    obtain ⟨e, he, hsame⟩ := ih
    obtain ⟨s', hs', rfl⟩ := Option.map_eq_some_iff.mp hs
    have hstep : pipesSys.step (x.1, e) a = some (s', fun q => e q ++ x.1.flow a s' q) := by
      show (streamSys.step x.1 a).map _ = _
      rw [hs']
      rfl
    refine ⟨_, .step he hc hstep, fun q => ?_⟩
    obtain ⟨hdelivered, haccepted⟩ := hsame q
    obtain ⟨hno, hno'⟩ := closings_moves (x.1.pipe q) (s'.pipe q)
    constructor
    · simp [Moves.note, flow, List.flatMap_map, hdelivered, hno]
    · simp [Moves.note, flow, List.flatMap_map, haccepted, hno']

end Streams

/-- **What is written through one end of a connection is read through the other.** Whatever happens
after the streams `w` and `r` have had the ends of the pipe `q`, all that is moved in it is written
through `w` or read through `r`; and what is read is what was written, in its order. If both are
sockets, they are peers. -/
theorem ends_deliver {x x' : Streams × Moves} (hr : movesSys.ReachIf (fun x a => x.1.Kept a) x)
    {q : Nat} {w r : Stream} (hw : x.1.WriteEnd q w) (hread : x.1.ReadEnd q r)
    {as : List StreamAction} (hrun : movesSys.RunIf (fun x a => x.1.Kept a) x as x') :
    (∀ a b, w = .socket a → r = .socket b → (x.1.scb b).peer = some a) ∧
      (∀ e ∈ x'.2.moved q, Through w r e) ∧
      (x'.2.moved q).flatMap (fun e => e.2.delivered) ++ (x'.1.pipe q).stored =
        (x'.2.moved q).flatMap (fun e => e.2.accepted) := by
  obtain ⟨hreach, ws, rs, ho⟩ := Streams.owned hr
  obtain ⟨ws', rs', ho', hsame⟩ := Streams.owned_runIf hrun hreach ho
  have hlt : q < x.1.pipes := by
    obtain ⟨object, hn⟩ := Streams.named hreach
    rcases hw with ⟨rfl, f, hf⟩ | ⟨k, -, hk⟩
    · obtain ⟨hopens, hobject⟩ := hn.stream f _ hf
      exact hn.pipe _ hopens q (.inr hobject)
    · exact (Streams.allotted hreach).send k q hk
  refine ⟨?_, fun e he => ?_, ?_⟩
  · rintro a b rfl rfl
    obtain ⟨k, hk, hsend⟩ := hw.resolve_left (by simp)
    obtain ⟨j, hj, hreceive⟩ := hread.resolve_left (by simp)
    obtain rfl := Stream.socket.inj hk
    obtain rfl := Stream.socket.inj hj
    exact (Streams.wired hreach).peer b a q hreceive hsend
  · rw [ho.write q w hw, ho.read q r hread, ← (hsame q hlt).1, ← (hsame q hlt).2]
    exact ho'.moved q e he
  · have hsize := (hrun.reachIf hr).mono fun _ _ hc => hc.size
    obtain ⟨e, he, hmoved⟩ := Streams.moved_record hsize
    rw [(hmoved q).1, (hmoved q).2]
    exact (Streams.fifo he q).2

/-- A client writes three bytes, and its peer reads two of them through a duplicate of its socket; then
the client closes its own. -/
theorem ends_deliver_run : ∃ (x x' : Streams × Moves) (as : List StreamAction),
    (movesSys.ReachIf (fun x a => x.1.Kept a) x ∧
      movesSys.RunIf (fun x a => x.1.Kept a) x as x' ∧ x'.2.moved 0 =
        [(some (.socket 1), .write 3 [5, 6, 7]), (some (.socket 2), .read 2 [5, 6])]) ∧
      (∀ a b, Stream.socket 1 = .socket a → Stream.socket 2 = .socket b →
        (x.1.scb b).peer = some a) ∧
      (∀ e ∈ x'.2.moved 0, Through (.socket 1) (.socket 2) e) ∧
      (x'.2.moved 0).flatMap (fun e => e.2.delivered) ++ (x'.1.pipe 0).stored =
        (x'.2.moved 0).flatMap (fun e => e.2.accepted) := by
  let as : List StreamAction := [.write 1 1 [5, 6, 7] 3, .proceed 1, .dup2 0 2 5, .close 0 2,
    .read 0 5 2 false, .proceed 0, .close 1 1]
  let moved : List (Option Stream × PipeEvent) :=
    [(some (.socket 1), .write 3 [5, 6, 7]), (some (.socket 2), .read 2 [5, 6])]
  let check : Streams × Moves → StreamAction → Bool := fun x a => decide (x.1.Kept a)
  obtain ⟨x, hr, hp⟩ := Sys.reachIf_of_exec (M := movesSys) (C := fun x a => x.1.Kept a)
    check (.initial 0, { via := fun _ => none, moved := fun _ => [] })
    [.socket 0 7 true, .listen 0 0, .socket 0 0 true, .createThread 0, .connect 1 1 7 true,
      .accept 0 0 ⟨true, true, true⟩, .resume 1 false ⟨true, true, true⟩]
    (fun x => decide ((x.1.scb 1).send = some 0 ∧ (x.1.scb 2).receive = some 0) &&
      ((movesSys.exec check x as).map fun x' => decide (x'.2.moved 0 = moved)) == some true)
    (fun _ _ h => of_decide_eq_true h) ⟨⟨0, rfl⟩, rfl⟩ (by decide)
  simp only [Bool.and_eq_true, decide_eq_true_eq, beq_iff_eq] at hp
  obtain ⟨⟨hsend, hreceive⟩, hexec⟩ := hp
  obtain ⟨x', hx', hmoved⟩ := Option.map_eq_some_iff.mp hexec
  have hrun : movesSys.RunIf (fun x a => x.1.Kept a) x as x' :=
    Sys.RunIf.of_exec (fun _ _ h => of_decide_eq_true h) hx'
  exact ⟨x, x', as, ⟨hr, hrun, of_decide_eq_true hmoved⟩,
    ends_deliver hr (.inr ⟨1, rfl, hsend⟩) (.inr ⟨2, rfl, hreceive⟩) hrun⟩

end TinyOS
