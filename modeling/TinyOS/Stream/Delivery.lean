import TinyOS.Pipe.Blocked
import TinyOS.Stream.Flow

/-!
# What the pipes of the kernel deliver

The results of `Pipe/Ends.lean`, for every pipe of the kernel, in every run in which no pipe is used
after it was freed (`Proper`, in `Stream/PipeHeap.lean`). A history says for each pipe what its
stretches returned and when its ends were closed (`pipesSys`). **The history of each pipe is one that
a pipe by itself can have** (`streams_simulate_pipe`), and so is what it holds, and who sleeps in it.
-/

set_option autoImplicit false

namespace TinyOS

open Transition

namespace Streams

variable {s s' : Streams} {a : StreamAction} {q : Nat}

/-- What the step from `s` to `s'` does to the pipe `q`. -/
def flow (s : Streams) (a : StreamAction) (s' : Streams) (q : Nat) : List PipeEvent :=
  s.pipeEvents a q ++ (s.pipe q).closings (s'.pipe q)

theorem flags_of_step {T : Type} [DecidableEq T] {t t' : PipeState T} {b : PipeAction T}
    (h : t.step b = some t') : t'.pipe.readerClosed = t.pipe.readerClosed ∧
      t'.pipe.writerClosed = t.pipe.writerClosed := by
  have hread : ∀ u size, (t.afterRead u size (pipeRead t.pipe size)).pipe.readerClosed =
      t.pipe.readerClosed ∧ (t.afterRead u size (pipeRead t.pipe size)).pipe.writerClosed =
      t.pipe.writerClosed := by
    intro u size
    cases hr : pipeRead t.pipe size with
    | wait => exact ⟨rfl, rfl⟩
    | ret => exact pipeRead_flags hr
  have hwrite : ∀ u buf size w, (∀ code b wake, w = .ret code b wake →
        b.readerClosed = t.pipe.readerClosed ∧ b.writerClosed = t.pipe.writerClosed) →
      (t.afterWrite u buf size w).pipe.readerClosed = t.pipe.readerClosed ∧
        (t.afterWrite u buf size w).pipe.writerClosed = t.pipe.writerClosed := by
    intro u buf size w hw
    cases w with
    | wait => exact ⟨rfl, rfl⟩
    | ret code b wake => exact hw code b wake rfl
  unfold PipeState.step at h
  split at h
  · split at h
    · cases h
      exact hread ..
    · cases h
      exact hwrite _ _ _ _ fun _ _ _ => pipeWrite_flags
    · exact absurd h (by simp)
  · split at h
    · cases h
      exact hread ..
    · cases h
      exact hwrite _ _ _ _ fun _ _ _ => pipeWriteLoop_flags
    · exact absurd h (by simp)

/-- A stretch closes no end. -/
theorem Runs.closings {b : PipeAction Nat} (h : s.Runs a q b s') :
    (s.pipe q).closings (s'.pipe q) = [] := by
  obtain ⟨t, ht, heq⟩ := Option.map_eq_some_iff.mp (h.2 [])
  have hpipe : s'.pipe q = t.pipe := congrArg (fun e : PipeEnds Nat => e.pipe) heq.symm
  obtain ⟨hreader, hwriter⟩ := flags_of_step ht
  have hreader' : (s'.pipe q).readerClosed = (s.pipe q).readerClosed := by rw [hpipe, hreader]; rfl
  have hwriter' : (s'.pipe q).writerClosed = (s.pipe q).writerClosed := by rw [hpipe, hwriter]; rfl
  simp [PipeCB.closings, hreader', hwriter']

/-- What the pipe `q` itself has to do in a step of the kernel meets `D`. -/
structure Allows (D : PipeEnds Nat → EndsAction Nat → Prop) (q : Nat) (s : Streams)
    (a : StreamAction) : Prop where
  use : ∀ b, s.pipeAction a = some (q, b) → ∀ log, D (s.ends q log) (.use b)
  reader : s.shutsRead a = some q → ∀ log, D (s.ends q log) .closeReader
  writer : s.shutsRead a = some q ∨ s.shutsWrite a = some q →
    ∀ log, D (s.ends q log) .closeWriter

variable {D : PipeEnds Nat → EndsAction Nat → Prop}

/-- A step of the kernel is a run of the pipe. -/
theorem flow_runIf (hborn : (s.pc s.threads).pipePc q = .out)
    (hfresh : s.pipes ≤ q → s.pipe q = getPipe) (hs : s.perform a = some s')
    (hD : s.Allows D q a) (log : List PipeEvent) : ∃ bs,
    (endsSys Nat).RunIf D (s.ends q log) bs (s'.ends q (log ++ s.flow a s' q)) := by
  rcases flows hborn hfresh hs with ⟨b, hruns⟩ | ⟨hno, hclose⟩
  · refine ⟨[.use b], .single (hD.use b hruns.1 log) ?_⟩
    rw [flow, hruns.closings, List.append_nil]
    exact hruns.2 log
  · have hevents : s.pipeEvents a q = [] := by
      unfold pipeEvents
      split
      · rename_i i b hb
        refine if_neg ?_
        rintro rfl
        exact hno b hb
      · rfl
    have ht := turns_perform hs
    rw [flow, hevents, List.nil_append]
    cases hclose with
    | still h =>
      refine ⟨[], ?_⟩
      rw [h.pipe, PipeCB.closings_self, List.append_nil, h.ends]
      exact .nil _
    | reader hopen h =>
      have hclosed : (s'.pipe q).readerClosed = true :=
        (congrArg (fun t : PipeEnds Nat => t.pipe.readerClosed) (h [])).trans
          (readerClose_closed (t := s.ends q []) hopen).1
      have hshuts := (ht.reader q hclosed).resolve_left (by simp [hopen])
      exact ⟨[.closeReader], .single (hD.reader hshuts log) (congrArg some (h log).symm)⟩
    | writer hopen h =>
      have hclosed : (s'.pipe q).writerClosed = true :=
        (congrArg (fun t : PipeEnds Nat => t.pipe.writerClosed) (h [])).trans (writerClose_closed _)
      have hshuts := (ht.writer q hclosed).resolve_left (by simp [hopen])
      exact ⟨[.closeWriter], .single (hD.writer hshuts log) (congrArg some (h log).symm)⟩

/-! ## The pipes that are not made yet -/

/-- Nobody is in a pipe that was not made yet, and nothing has happened to it. -/
structure Unmade (s : Streams) : Prop where
  inside : ∀ u q, (s.pc u).pipe = some q → q < s.pipes
  fresh : ∀ q, s.pipes ≤ q → s.pipe q = getPipe

theorem leads_lt {object : Nat → Stream} (hn : s.Named object) (ha : s.sockets.Allotted)
    (h : s.Leads q) : q < s.pipes := by
  rcases h with ⟨p, fd, f, -, hst⟩ | ⟨k, hk⟩
  · rcases hst with hst | hst
    · obtain ⟨hlt, hobject⟩ := hn.stream f _ hst
      exact hn.pipe _ hlt q (.inl hobject)
    · obtain ⟨hlt, hobject⟩ := hn.stream f _ hst
      exact hn.pipe _ hlt q (.inr hobject)
  · exact hk.elim (ha.send k q) (ha.receive k q)

theorem born_out (ha : s.sockets.Allotted) (q : Nat) : (s.pc s.threads).pipePc q = .out := by
  have hborn : (s.pc s.threads).socketPc = .unborn := (ha.born s.threads).mpr (Nat.le_refl _)
  cases hpc : s.pc s.threads <;> simp [hpc, StreamPc.socketPc] at hborn
  rfl

theorem unmade {C : Streams → StreamAction → Prop} (hr : streamSys.ReachIf C s) : s.Unmade := by
  induction hr with
  | init hi =>
    obtain ⟨serialPorts, rfl⟩ := hi
    constructor
    · intro u q hu
      simp only [Streams.initial] at hu
      split at hu <;> exact absurd hu (by simp [StreamPc.pipe])
    · exact fun q _ => rfl
  | @step s s' a hr _ hs ih =>
    obtain ⟨object, hn⟩ := named hr
    have ha := allotted hr
    have ht := turns_perform hs
    constructor
    · intro u q hu
      rcases ht.inside u q hu with hbefore | ⟨-, hleads⟩
      · exact Nat.lt_of_lt_of_le (ih.inside u q hbefore) ht.pipes
      · exact Nat.lt_of_lt_of_le (leads_lt hn ha hleads) ht.pipes
    · intro q hq
      have hge : s.pipes ≤ q := ht.pipes.trans hq
      -- A step can do nothing to it.
      have hD : s.Allows (fun _ _ => False) q a := by
        refine ⟨fun b hb _ => ?_, fun hr _ => ?_, fun hr _ => ?_⟩
        · rcases pipeAction_leads hb with hleads | ⟨u, hu⟩
          · exact absurd (leads_lt hn ha hleads) (Nat.not_lt_of_le hge)
          · exact absurd (ih.inside u q hu) (Nat.not_lt_of_le hge)
        · exact absurd (hn.shuts_lt ha hs (.inl hr)) (Nat.not_lt_of_le hge)
        · exact absurd (hn.shuts_lt ha hs hr) (Nat.not_lt_of_le hge)
      obtain ⟨bs, hrun⟩ := flow_runIf (born_out ha q) (ih.fresh q) hs hD []
      have hends : s'.pipe q = s.pipe q := by
        generalize hend : s'.ends q ([] ++ s.flow a s' q) = e at hrun
        cases hrun with
        | nil => exact congrArg (fun t : PipeEnds Nat => t.pipe) hend
        | cons hc => exact hc.elim
      rw [hends, ih.fresh q hge]

end Streams

/-! ## Histories -/

/-- The kernel, with a history of each pipe. -/
def pipesSys : Sys (Streams × (Nat → List PipeEvent)) StreamAction :=
  streamSys.record (fun _ => []) fun s a s' h q => h q ++ s.flow a s' q

namespace Streams

variable {s s' : Streams} {a : StreamAction} {q : Nat} {x : Streams × (Nat → List PipeEvent)}

/-- The pipe `q` of the kernel, with its history. -/
def IsPipe (q : Nat) (x : Streams × (Nat → List PipeEvent)) (t : PipeEnds Nat) : Prop :=
  streamSys.Reach x.1 ∧ t = x.1.ends q (x.2 q)

theorem simulates_pipe (q : Nat) (D : PipeEnds Nat → EndsAction Nat → Prop) :
    Sys.SimulatesIf (fun x a => x.1.Allows D q a) D pipesSys (endsSys Nat) (IsPipe q) where
  init x hx := by
    obtain ⟨hi, hlog⟩ := hx
    refine ⟨_, rfl, .init hi, ?_⟩
    obtain ⟨serialPorts, hi⟩ := hi
    rw [hlog, hi]
    simp only [Streams.ends, Streams.initial, PipeState.initial, List.flatMap_nil]
    congr 2
    funext u
    split <;> rfl
  step x a x' t h hD hs := by
    obtain ⟨hr, rfl⟩ := h
    obtain ⟨s', hs', rfl⟩ := Option.map_eq_some_iff.mp hs
    have hu := unmade hr
    obtain ⟨bs, hrun⟩ := flow_runIf (born_out (allotted hr) q) (hu.fresh q) hs' hD (x.2 q)
    exact ⟨bs, _, hrun, hr.next hs', rfl⟩

/-- In a run that allows `D` of the pipe `q`, it is in a state that it reaches by itself. -/
theorem pipe_reachIf {C : Streams × (Nat → List PipeEvent) → StreamAction → Prop}
    {D : PipeEnds Nat → EndsAction Nat → Prop} (hr : pipesSys.ReachIf C x)
    (hD : ∀ x a, streamSys.Reach x.1 → C x a → x.1.Allows D q a) :
    (endsSys Nat).ReachIf D (x.1.ends q (x.2 q)) := by
  have hsim : Sys.SimulatesIf C D pipesSys (endsSys Nat) (IsPipe q) :=
    ⟨(simulates_pipe q D).init, fun x a x' t h hc hs =>
      (simulates_pipe q D).step x a x' t h (hD x a h.1 hc) hs⟩
  obtain ⟨t, ht, -, rfl⟩ := hsim.reachIf hr
  exact ht

/-- Whatever is done. -/
theorem pipe_reach (hr : pipesSys.Reach x) (q : Nat) : (endsSys Nat).Reach (x.1.ends q (x.2 q)) :=
  pipe_reachIf hr fun _ _ _ _ => ⟨fun _ _ _ => trivial, fun _ _ => trivial, fun _ _ => trivial⟩

/-! ## No pipe is used after it was freed -/

/-- Threads that are not born are in no pipe. -/
theorem outside (hr : streamSys.Reach s) (h : ∀ u < s.threads, (s.pc u).pipe ≠ some q) (u : Nat) :
    (s.pc u).pipePc q = .out := by
  rcases Nat.lt_or_ge u s.threads with hu | hu
  · exact StreamPc.pipePc_of_ne (h u hu)
  · have hborn : (s.pc u).socketPc = .unborn := ((allotted hr).born u).mpr hu
    cases hpc : s.pc u <;> simp [hpc, StreamPc.socketPc] at hborn
    rfl

/-- Nobody is in the pipe when its read end is closed. -/
def ClosedEmpty (t : PipeEnds Nat) (b : EndsAction Nat) : Prop :=
  b = .closeReader → ∀ u, t.pc u = .out

theorem Proper.allows (hc : s.Proper a) (hr : streamSys.Reach s) : s.Allows ClosedEmpty q a where
  use _ _ _ he := absurd he (by simp)
  reader hq _ _ := outside hr (hc.closes q hq).1
  writer _ _ he := absurd he (by simp)

/-- A pipe of the kernel, where every pipe that is pointed at is live. -/
def IsLivePipe (q : Nat) (x : Streams × (Nat → List PipeEvent)) (t : PipeEnds Nat) : Prop :=
  streamSys.ReachIf Proper x.1 ∧ x.1.PipesLive ∧ t = x.1.ends q (x.2 q)

/-! ## In order -/

end Streams

/-- A `Read` or `Write` asks for at least one byte. -/
def StreamAction.SizePos : StreamAction → Prop
  | .read _ _ size _ | .write _ _ _ size => 0 < size
  | _ => True

instance (a : StreamAction) : Decidable a.SizePos :=
  match a with
  | .read _ _ size _ | .write _ _ _ size => inferInstanceAs (Decidable (0 < size))
  | .openNull .. | .openTerminal .. | .pipe .. | .socket .. | .openInfo .. | .listen .. | .accept ..
  | .connect .. | .shutDown .. | .close .. | .dup2 .. | .exec .. | .createThread _ | .exit _
  | .reap _ | .resume .. | .proceed _ | .rxReady | .timeout _ => .isTrue trivial

namespace Streams

variable {s : Streams} {a : StreamAction} {q : Nat}

theorem sizePos_of_pipeAction {b : PipeAction Nat} (ha : a.SizePos)
    (hb : s.pipeAction a = some (q, b)) : b.SizePos := by
  unfold pipeAction at hb
  split at hb
  · obtain ⟨i, -, he⟩ := Option.map_eq_some_iff.mp hb
    cases he
    exact ha
  · obtain ⟨i, -, he⟩ := Option.map_eq_some_iff.mp hb
    cases he
    exact ha
  · split at hb
    · cases hb
      trivial
    · cases hb
      trivial
    · exact absurd hb (by simp)
  · exact absurd hb (by simp)

/-- In every run whose calls ask for something, and whatever is closed, a pipe is a FIFO. -/
theorem fifo_inductive : (endsSys Nat).InductiveIf (fun _ a => a.SizePos)
    fun t => t.toPipeState.Inv where
  init t ht := ht ▸ .initial
  step t b t' h hb hs := by
    have hkeep : ∀ {t t' : PipeEnds Nat}, t.toPipeState.Inv → t'.pipe.Ok →
        t'.pipe.stored = t.pipe.stored → t'.delivered = t.delivered →
        t'.accepted = t.accepted → (∀ u c, t'.pc u = .asleep c ∨ t'.pc u = .woken c →
          t.pc u = .asleep c ∨ t.pc u = .woken c) → t'.toPipeState.Inv := by
      intro t t' h hok hstored hdelivered haccepted hpc
      exact ⟨hok, by rw [hstored, hdelivered, haccepted, h.fifo],
        fun u c hu => h.sizes u c (hpc u c hu)⟩
    have hwriter : ∀ t : PipeEnds Nat, t.toPipeState.Inv → t.writerClose.toPipeState.Inv := by
      intro t h
      unfold PipeEnds.writerClose
      split
      · exact h
      · exact hkeep h ⟨h.ok.1, h.ok.2, h.ok.3, h.ok.4⟩ rfl rfl rfl
          fun u c hu => PipePc.dataBroadcast_call hu
    cases b with
    | use b =>
      obtain ⟨t₁, ht₁, rfl⟩ := Option.map_eq_some_iff.mp hs
      exact h.step hb ht₁
    | closeWriter =>
      cases hs
      exact hwriter t h
    | closeReader =>
      cases hs
      unfold PipeEnds.readerClose
      split
      · exact h
      · exact hwriter _ (hkeep h ⟨h.ok.1, h.ok.2, h.ok.3, h.ok.4⟩ rfl rfl rfl
          fun u c hu => PipePc.spaceBroadcast_call hu)

theorem fifo {x : Streams × (Nat → List PipeEvent)}
    (hr : pipesSys.ReachIf (fun _ a => a.SizePos) x) (q : Nat) : (x.1.pipe q).Ok ∧
      (x.2 q).flatMap PipeEvent.delivered ++ (x.1.pipe q).stored =
        (x.2 q).flatMap PipeEvent.accepted := by
  have hpipe : (endsSys Nat).ReachIf (fun _ b => b.SizePos) (x.1.ends q (x.2 q)) :=
    pipe_reachIf hr fun x a _ ha => ⟨fun b hb _ => sizePos_of_pipeAction ha hb,
      fun _ _ => trivial, fun _ _ => trivial⟩
  have hinv := fifo_inductive.reachIf hpipe
  exact ⟨hinv.ok, hinv.fifo⟩

/-! ## Closed in time -/

/-- Who sleeps in a pipe has a reason to. -/
structure Blocked (s : Streams) : Prop where
  readers : ∀ u f q size, s.pc u = .reading f q size false →
    (s.pipe q).stored = [] ∧ (s.pipe q).writerClosed = false
  writers : ∀ u f q buf size, s.pc u = .writing f q buf size false →
    (s.pipe q).availableSpace = 0

theorem asleep_reading {u f size : Nat} (hu : s.pc u = .reading f q size false) :
    (s.pc u).pipePc q = .asleep (.read size) := by
  rw [hu]
  simp [StreamPc.pipePc]

theorem asleep_writing {u f size : Nat} {buf : List Byte}
    (hu : s.pc u = .writing f q buf size false) :
    (s.pc u).pipePc q = .asleep (.write (bytes buf) size) := by
  rw [hu]
  simp [StreamPc.pipePc]

end Streams

/-- **Every pipe of the kernel is a pipe with two ends**: seen from it, a run of the kernel that uses no
freed pipe is a run of that pipe, and its history is the log. Its read end is closed when nobody is in
it. -/
theorem streams_simulate_pipe (q : Nat) : Sys.SimulatesIf (fun x a => x.1.Proper a)
    Streams.ClosedEmpty pipesSys (endsSys Nat) (Streams.IsLivePipe q) where
  init x hx := by
    obtain ⟨t, ht, -, rfl⟩ := (Streams.simulates_pipe q Streams.ClosedEmpty).init x hx
    have hr : streamSys.ReachIf Streams.Proper x.1 := .init hx.1
    exact ⟨_, ht, hr, Streams.pipesLive hr, rfl⟩
  step x a x' t h hc hs := by
    obtain ⟨hr, -, rfl⟩ := h
    have hreach := hr.reach
    obtain ⟨bs, t', hrun, -, rfl⟩ := (Streams.simulates_pipe q Streams.ClosedEmpty).step x a x' _
      ⟨hreach, rfl⟩ (hc.allows hreach) hs
    obtain ⟨s', hs', rfl⟩ := Option.map_eq_some_iff.mp hs
    have hr' : streamSys.ReachIf Streams.Proper s' := hr.step hc hs'
    exact ⟨bs, _, hrun, hr', Streams.pipesLive hr', rfl⟩

/-- **Every pipe of the kernel is a FIFO**: through whatever fids, processes and sockets it is written
and read, what was accepted is what was delivered, and then what it holds. -/
theorem pipes_fifo {x : Streams × (Nat → List PipeEvent)}
    (hr : pipesSys.ReachIf (fun x a => a.SizePos ∧ x.1.Proper a) x) (q : Nat) : (x.1.pipe q).Ok ∧
      (x.2 q).flatMap PipeEvent.delivered ++ (x.1.pipe q).stored =
        (x.2 q).flatMap PipeEvent.accepted :=
  Streams.fifo (hr.mono fun _ _ hc => hc.1) q

/-- A thread sleeps in a `Read`, another one writes three bytes, and the first one takes two of them.
Then both ends are closed, and there is a second pipe. -/
theorem pipes_fifo_run : ∃ x : Streams × (Nat → List PipeEvent),
    (pipesSys.ReachIf (fun x a => a.SizePos ∧ x.1.Proper a) x ∧ x.1.freedPipe 0 = 1 ∧
      x.2 0 = [.write 3 [7, 8, 9], .read 2 [7, 8], .writerClosed, .readerClosed] ∧
      x.2 1 = [.write 1 [5]]) ∧
      (x.1.pipe 1).Ok ∧ (x.2 1).flatMap PipeEvent.delivered ++ (x.1.pipe 1).stored =
        (x.2 1).flatMap PipeEvent.accepted := by
  obtain ⟨x, hr, hp⟩ := Sys.reachIf_of_exec (M := pipesSys)
    (C := fun x a => a.SizePos ∧ x.1.Proper a)
    (fun x a => decide (a.SizePos ∧ x.1.Proper a)) (.initial 0, fun _ => [])
    [.pipe 0 true, .createThread 0, .read 1 0 2 false, .write 0 1 [7, 8, 9] 3, .proceed 0,
      .resume 1 false ⟨true, true, true⟩, .proceed 1, .close 0 1, .close 0 0, .pipe 0 true,
      .write 0 1 [5] 1]
    (fun x => decide (x.1.freedPipe 0 = 1 ∧
      x.2 0 = [.write 3 [7, 8, 9], .read 2 [7, 8], .writerClosed, .readerClosed] ∧
      x.2 1 = [.write 1 [5]]))
    (fun _ _ h => of_decide_eq_true h) ⟨⟨0, rfl⟩, rfl⟩ (by decide)
  exact ⟨x, ⟨hr, of_decide_eq_true hp⟩, pipes_fifo hr 1⟩

/-- **The pipes of the kernel close as they should**, where none is used after it was freed: end of
file is read only from a pipe that is closed and drained, nothing is written that nobody can read, and
nobody sleeps on an end that is closed. -/
theorem pipes_prompt {x : Streams × (Nat → List PipeEvent)}
    (hr : pipesSys.ReachIf (fun x a => a.SizePos ∧ x.1.Proper a) x) (q : Nat) :
    (x.1.ends q (x.2 q)).Prompt := by
  have hpipe : (endsSys Nat).ReachIf (fun t b => t.Sound b) (x.1.ends q (x.2 q)) := by
    refine Streams.pipe_reachIf hr fun x a hreach hc => ⟨fun b hb _ => ?_, fun hq log u => ?_, ?_⟩
    · exact Streams.sizePos_of_pipeAction hc.1 hb
    · rw [(hc.2.allows hreach).reader hq log rfl u]
      rfl
    · exact fun _ _ => trivial
  exact ((PipeEnds.inductive_inv Nat).reachIf hpipe).prompt

/-- The write end is duplicated, and both of its fids are closed; then the bytes are read, and the end of
the file. -/
theorem pipes_prompt_run : ∃ x : Streams × (Nat → List PipeEvent),
    (pipesSys.ReachIf (fun x a => a.SizePos ∧ x.1.Proper a) x ∧
      x.2 0 = [.write 1 [7], .writerClosed, .read 1 [7], .read 0 []]) ∧
      (x.1.ends 0 (x.2 0)).Prompt := by
  obtain ⟨x, hr, hp⟩ := Sys.reachIf_of_exec (M := pipesSys)
    (C := fun x a => a.SizePos ∧ x.1.Proper a)
    (fun x a => decide (a.SizePos ∧ x.1.Proper a)) (.initial 0, fun _ => [])
    [.pipe 0 true, .dup2 0 1 5, .write 0 5 [7] 1, .proceed 0, .close 0 1, .close 0 5,
      .read 0 0 4 false, .proceed 0, .read 0 0 4 false, .proceed 0]
    (fun x => decide (x.2 0 = [.write 1 [7], .writerClosed, .read 1 [7], .read 0 []]))
    (fun _ _ h => of_decide_eq_true h) ⟨⟨0, rfl⟩, rfl⟩ (by decide)
  exact ⟨x, ⟨hr, of_decide_eq_true hp⟩, pipes_prompt hr 0⟩

/-- **Who sleeps in a pipe of the kernel has a reason to**, in every run in which none is used after it
was freed. -/
theorem sleepers_blocked {s : Streams} (hr : streamSys.ReachIf (fun s a => s.Proper a) s) :
    s.Blocked := by
  obtain ⟨e, he⟩ : ∃ e, pipesSys.ReachIf (fun _ _ => True) (s, e) := hr.reach.record
  have hblocked : ∀ q, (s.ends q (e q)).Blocked := fun q =>
    PipeEnds.blocked (Streams.pipe_reach he q)
  constructor
  case readers =>
    intro u f q size hu
    exact (hblocked q).readers u size (Streams.asleep_reading hu)
  case writers =>
    intro u f q buf size hu
    exact (hblocked q).writers u (Streams.bytes buf) size (Streams.asleep_writing hu)

/-- A thread that sleeps in a `Read`, after another pipe was closed. -/
theorem sleepers_blocked_run : ∃ s : Streams, (streamSys.ReachIf (fun s a => s.Proper a) s ∧
    s.freedPipe 0 = 1 ∧ s.pc 1 = .reading 2 1 2 false) ∧ s.Blocked := by
  obtain ⟨s, hr, hp⟩ := Sys.reachIf_of_exec (M := streamSys) (C := fun s a => s.Proper a)
    (fun s a => decide (s.Proper a)) (.initial 0)
    [.pipe 0 true, .close 0 1, .close 0 0, .pipe 0 true, .createThread 0, .read 1 0 2 false]
    (fun s => decide (s.freedPipe 0 = 1 ∧ s.pc 1 = .reading 2 1 2 false))
    (fun _ _ h => of_decide_eq_true h) ⟨0, rfl⟩ (by decide)
  exact ⟨s, ⟨hr, of_decide_eq_true hp⟩, sleepers_blocked hr⟩

end TinyOS
