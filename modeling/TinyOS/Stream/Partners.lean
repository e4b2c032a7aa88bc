import TinyOS.Stream.Counted
import TinyOS.Stream.Delivery

/-!
# Who sleeps in a pipe has a partner

A thread that sleeps in a `Read` of a pipe of `Pipe` is woken by a write, or by the last `Close` of the
write end. So somebody must hold that end: **as long as a thread sleeps in such a pipe, a fid or a call in
progress refers to the other end of it** (`sleepers_have_partners`). Whatever is duplicated, inherited
and closed, and whoever exits, no reader waits for bytes that nobody can write, as long as no pipe is
used after it was freed (`Proper`).

Streams of pipes are opened in pairs, and a stream that was closed has its flag set (`Paired`). So the
flag that a sleeper has found unset says that the stream was not closed, and what was not closed is
referred to, by the counts of `Stream/Refcount.lean`.
-/

set_option autoImplicit false

namespace TinyOS

open Transition FileTables

namespace PipeEnds

variable {T : Type} [DecidableEq T]

omit [DecidableEq T] in
theorem readerClosed_writerClose (t : PipeEnds T) :
    t.writerClose.pipe.readerClosed = t.pipe.readerClosed := by
  unfold PipeEnds.writerClose
  split <;> rfl

omit [DecidableEq T] in
theorem inWrite_writerClose (t : PipeEnds T) (u : T) :
    (t.writerClose.pc u).inWrite = (t.pc u).inWrite := by
  unfold PipeEnds.writerClose
  split
  · rfl
  · exact inWrite_dataBroadcast _

/-- No thread is in the loop of `pipe_write` once the read end is closed. -/
theorem writers_out : (endsSys T).InductiveIf
    (fun t b => b = .closeReader → ∀ u, (t.pc u).inWrite = false)
    fun t => t.pipe.readerClosed = true → ∀ u, (t.pc u).inWrite = false where
  init t ht := by
    subst ht
    simp [PipeState.initial, PipePc.inWrite]
  step t b t' h hc hs := by
    have hread : ∀ u size r, (∀ v, (t.pc v).inWrite = false) →
        ∀ v, ((t.afterRead u size r).pc v).inWrite = false := by
      intro u size r hout v
      unfold PipeState.afterRead
      split <;> by_cases hv : v = u
      · simp [hv, PipePc.inWrite]
      · simpa [hv] using hout v
      · simp [hv, PipePc.inWrite]
      · simp only [Function.update_of_ne hv]
        split <;> simpa using hout v
    have hwrite : ∀ u buf size, t.pipe.readerClosed = true → (∀ v, (t.pc v).inWrite = false) →
        ∀ v, ((t.afterWrite u buf size (pipeWrite t.pipe buf size)).pc v).inWrite = false := by
      intro u buf size hclosed hout v
      rw [pipeWrite, if_pos hclosed]
      by_cases hv : v = u
      · simp [PipeState.afterWrite, hv, PipePc.inWrite]
      · simpa [PipeState.afterWrite, hv] using hout v
    cases b with
    | use b =>
      obtain ⟨t₁, ht₁, rfl⟩ := Option.map_eq_some_iff.mp hs
      intro hclosed
      replace hclosed : t.pipe.readerClosed = true := (Streams.flags_of_step ht₁).1 ▸ hclosed
      have hout := h hclosed
      unfold PipeState.step at ht₁
      split at ht₁
      · split at ht₁ <;> cases ht₁
        · exact hread _ _ _ hout
        · exact hwrite _ _ _ hclosed hout
      · rename_i u
        split at ht₁ <;> cases ht₁
        · exact hread _ _ _ hout
        · -- It was in the loop.
          rename_i hu
          exact absurd (hout u) (by simp [hu, PipePc.inWrite])
    | closeWriter =>
      cases hs
      intro hclosed u
      rw [inWrite_writerClose]
      exact h (readerClosed_writerClose t ▸ hclosed) u
    | closeReader =>
      cases hs
      intro _ u
      unfold PipeEnds.readerClose
      split
      · exact hc rfl u
      · rw [inWrite_writerClose]
        simpa using hc rfl u

end PipeEnds

namespace Streams

variable {s s' : Streams} {a : StreamAction} {object object' : Nat → Stream}
  {used : Nat → Prop} {R : Nat → List Ref} {q i : Nat}

/-- The two ends of a pipe are opened together, and one that was closed is marked so. -/
structure Paired (s : Streams) (object : Nat → Stream) : Prop where
  ends : ∀ i < s.opens, ∀ q, object i = .reader q ∨ object i = .writer q →
    (∃ j < s.opens, object j = .reader q) ∧ ∃ j < s.opens, object j = .writer q
  reader : ∀ i ∈ s.closes, ∀ q, object i = .reader q → (s.pipe q).readerClosed = true
  writer : ∀ i ∈ s.closes, ∀ q, object i = .writer q → (s.pipe q).writerClosed = true

/-- An end that was closed stays closed. -/
theorem flags_mono (hu : s.Unmade) (ha : s.sockets.Allotted) (hs : s.perform a = some s') (q : Nat) :
    ((s.pipe q).readerClosed = true → (s'.pipe q).readerClosed = true) ∧
      ((s.pipe q).writerClosed = true → (s'.pipe q).writerClosed = true) := by
  rcases flows (born_out ha q) (hu.fresh q) hs with ⟨b, hruns⟩ | ⟨-, hclose⟩
  · obtain ⟨t, ht, heq⟩ := Option.map_eq_some_iff.mp (hruns.2 [])
    have hpipe : s'.pipe q = t.pipe := congrArg (fun e : PipeEnds Nat => e.pipe) heq.symm
    obtain ⟨hreader, hwriter⟩ := flags_of_step ht
    rw [hpipe, hreader, hwriter]
    exact ⟨id, id⟩
  · have hwriter : ∀ t : PipeEnds Nat, t.writerClose.pipe.readerClosed = t.pipe.readerClosed := by
      intro t
      unfold PipeEnds.writerClose
      split <;> rfl
    cases hclose with
    | still h =>
      rw [h.pipe]
      exact ⟨id, id⟩
    | reader hopen h =>
      have hpipe := congrArg (fun e : PipeEnds Nat => e.pipe) (h [])
      have hclosed := readerClose_closed (t := s.ends q []) hopen
      rw [show s'.pipe q = (s.ends q []).readerClose.pipe from hpipe]
      exact ⟨fun _ => hclosed.1, fun _ => hclosed.2⟩
    | writer hopen h =>
      have hpipe := congrArg (fun e : PipeEnds Nat => e.pipe) (h [])
      rw [show s'.pipe q = (s.ends q []).writerClose.pipe from hpipe,
        PipeEnds.readerClosed_writerClose]
      exact ⟨id, fun _ => writerClose_closed _⟩

/-- A step that closes an end of a pipe as a stream marks it so. -/
theorem flags_of_closing (hs : s.perform a = some s') {st : Stream} (hst : s.closing a = some st) :
    (∀ q, st = .reader q → (s'.pipe q).readerClosed = true) ∧
      ∀ q, st = .writer q → (s'.pipe q).writerClosed = true := by
  obtain ⟨f, hf, hlast⟩ := Option.bind_eq_some_iff.mp hst
  obtain ⟨hlast, hstream⟩ := Option.ite_none_right_eq_some.mp hlast
  obtain ⟨u, hu⟩ : ∃ u, closer a = some u := by
    cases hu : closer a with
    | none => exact absurd ((dropped_eq_none hu).symm.trans hf) (by simp)
    | some u => exact ⟨u, rfl⟩
  rcases drop_spec hs hu with ⟨hno, -⟩ | ⟨g, s₀, s₁, hg, h₀, hcount, -, hd, h₁⟩
  · exact absurd (hno.symm.trans hf) (by simp)
  obtain rfl := Option.some.inj (hf.symm.trans hg)
  have hlast₀ : (s₀.FT f).refcount = 1 := by rw [hcount, hlast]
  have hst₀ : (s₀.FT f).stream = some st := by rw [h₀.stream, hstream]
  unfold decrefFCB at hd
  simp only [FileTables.decrementFCB_stream, FileTables.decrementFCB_refcount, if_true, hlast₀,
    hst₀] at hd
  obtain ⟨s₂, hs₂, rfl⟩ := Option.map_eq_some_iff.mp hd
  rw [h₁.pipe]
  constructor
  · rintro q rfl
    cases hs₂
    exact (shuts_readerClose q q).2.mpr (.inr rfl)
  · rintro q rfl
    cases hs₂
    exact (shuts_writerClose q q).2.2

/-- What is opened in a step comes in pairs. -/
theorem Paired.opens (h : s.Paired object) (hn : s.Named object) (hn' : s'.Named object')
    (hi : s'.Opened used) (hold : ∀ i < s.opens, object' i = object i) (ho : Opens s s') :
    ∀ i < s'.opens, ∀ q, object' i = .reader q ∨ object' i = .writer q →
      (∃ j < s'.opens, object' j = .reader q) ∧ ∃ j < s'.opens, object' j = .writer q := by
  have hbefore : s.opens ≤ s'.opens → ∀ i < s.opens, ∀ q,
      object' i = .reader q ∨ object' i = .writer q →
      (∃ j < s'.opens, object' j = .reader q) ∧ ∃ j < s'.opens, object' j = .writer q := by
    intro hle i hi q hq
    rw [hold i hi] at hq
    obtain ⟨⟨j, hj, hr⟩, k, hk, hw⟩ := h.ends i hi q hq
    exact ⟨⟨j, by omega, by rw [hold j hj, hr]⟩, k, by omega, by rw [hold k hk, hw]⟩
  -- One stream that is no end of a pipe.
  have hone : ∀ {f : Nat} {st : Stream}, Keeps (s.openFCB f st) s' →
      (∀ q, st ≠ .reader q ∧ st ≠ .writer q) → ∀ i < s'.opens, ∀ q,
      object' i = .reader q ∨ object' i = .writer q →
      (∃ j < s'.opens, object' j = .reader q) ∧ ∃ j < s'.opens, object' j = .writer q := by
    intro f st hk hst i hi q hq
    have hopens : s'.opens = s.opens + 1 := hk.opens
    rcases Nat.lt_or_ge i s.opens with hlt | hge
    · exact hbefore (by omega) i hlt q hq
    · obtain rfl : i = s.opens := by omega
      have hstream : (s'.FT f).stream = some st := by
        rw [hk.stream, Streams.openFCB, FileTables.modifyFCB_FT, if_pos rfl]
      have hopening : s'.opening f = s.opens := by
        rw [hk.opening, Streams.openFCB]
        exact Function.update_self ..
      have hobject := (hn'.stream f st hstream).2
      rw [hopening] at hobject
      rw [hobject] at hq
      exact (hq.elim (hst q).1 (hst q).2).elim
  cases ho with
  | none hk => exact hk.opens.symm ▸ hbefore hk.opens.ge
  | device hd hk =>
    refine hone hk fun q => ⟨?_, ?_⟩ <;>
      · rintro rfl
        simp [Stream.device] at hd
  | socket hlt hk => exact hone hk (by simp)
  | @pipe f g hlt hscb hk =>
    have hopens : s'.opens = s.opens + 1 + 1 := hk.opens
    have hcloses : s'.closes = s.closes := hk.closes
    have hopening : s'.opening =
        Function.update (Function.update s.opening f s.opens) g (s.opens + 1) := hk.opening
    have hstream : ∀ e, (s'.FT e).stream = if e = g then some (.writer s.pipes)
        else if e = f then some (.reader s.pipes) else (s.FT e).stream := by
      intro e
      rw [hk.stream, Streams.openFCB, FileTables.modifyFCB_FT, Streams.openFCB,
        FileTables.modifyFCB_FT]
      split
      · rfl
      · split <;> rfl
    -- The first of them was not closed, so an FCB holds it, and it is not that of the second.
    have hfg : f ≠ g := by
      rcases hi.all s.opens (by omega) with hclosed | ⟨e, he, hopen⟩
      · exact absurd (hn.closes _ (hcloses ▸ hclosed)) (Nat.lt_irrefl _)
      · rintro rfl
        rw [hopening, Function.update_idem, Function.update_apply] at hopen
        split at hopen
        · omega
        · rename_i hne
          obtain ⟨st, hst⟩ := Option.ne_none_iff_exists'.mp (hi.stream e he)
          rw [hstream, if_neg hne, if_neg hne] at hst
          exact absurd (hn.stream e st hst).1 (by omega)
    have hreader : object' s.opens = .reader s.pipes := by
      have := (hn'.stream f _ ((hstream f).trans (by rw [if_neg hfg, if_pos rfl]))).2
      rwa [hopening, Function.update_of_ne hfg, Function.update_self] at this
    have hwriter : object' (s.opens + 1) = .writer s.pipes := by
      have := (hn'.stream g _ ((hstream g).trans (if_pos rfl))).2
      rwa [hopening, Function.update_self] at this
    intro i hlt q hq
    rcases Nat.lt_or_ge i s.opens with hlt | hge
    · exact hbefore (by omega) i hlt q hq
    · obtain rfl : s.pipes = q := by
        obtain rfl | rfl : i = s.opens ∨ i = s.opens + 1 := by omega
        · simpa [hreader] using hq
        · simpa [hwriter] using hq
      exact ⟨⟨_, by omega, hreader⟩, _, by omega, hwriter⟩

theorem Paired.step (h : s.Paired object) (hn : s.Named object) (hi : s'.Opened used)
    (hu : s.Unmade) (ha : s.sockets.Allotted) (hs : s.perform a = some s') :
    ∃ object', s'.Named object' ∧ s'.Paired object' := by
  obtain ⟨object', hn', hold, -⟩ := hn.step hs
  refine ⟨object', hn', ?_⟩
  -- A stream that was closed before, or in this step.
  have hcases : ∀ i ∈ s'.closes, (i ∈ s.closes ∧ object' i = object i) ∨
      s.closing a = some (object' i) := by
    intro i hc
    rcases opens_or_closes hs with ⟨-, ho⟩ | ⟨f, st, hf, hlast, hst, hk⟩
    · have hsame : s'.closes = s.closes := by
        cases ho with
        | none hk | device _ hk | socket _ hk | pipe _ _ hk => exact hk.closes
      rw [hsame] at hc
      exact .inl ⟨hc, hold i (hn.closes i hc)⟩
    · rw [hk.closes] at hc
      rcases List.mem_append.mp hc with hc | hc
      · exact .inl ⟨hc, hold i (hn.closes i hc)⟩
      · obtain rfl := List.mem_singleton.mp hc
        obtain ⟨hlt, hobject⟩ := hn.stream f st hst
        exact .inr (by rw [hold _ hlt, hobject, closing_eq hf hlast hst])
  constructor
  case ends =>
    rcases opens_or_closes hs with ⟨-, ho⟩ | ⟨f, st, -, -, -, hk⟩
    · exact h.opens hn hn' hi hold ho
    · have hopens : s'.opens = s.opens := hk.opens
      rw [hopens]
      intro i hi q hq
      rw [hold i hi] at hq
      obtain ⟨⟨j, hj, hr⟩, k, hk, hw⟩ := h.ends i hi q hq
      exact ⟨⟨j, hj, by rw [hold j hj, hr]⟩, k, hk, by rw [hold k hk, hw]⟩
  case reader =>
    intro i hc q hq
    rcases hcases i hc with ⟨hc, hsame⟩ | hclosing
    · exact (flags_mono hu ha hs q).1 (h.reader i hc q (hsame ▸ hq))
    · exact (flags_of_closing hs hclosing).1 q hq
  case writer =>
    intro i hc q hq
    rcases hcases i hc with ⟨hc, hsame⟩ | hclosing
    · exact (flags_mono hu ha hs q).2 (h.writer i hc q (hsame ▸ hq))
    · exact (flags_of_closing hs hclosing).2 q hq

theorem exists_paired (hr : streamSys.ReachIf (fun s a => s.Sound a) s) :
    ∃ object, s.Named object ∧ s.Paired object := by
  induction hr with
  | init hi =>
    obtain ⟨serialPorts, rfl⟩ := hi
    refine ⟨fun _ => .null, ?_, ?_⟩ <;>
      constructor <;> simp [initial, FileTables.initializeFiles]
  | @step s s' a hr hc hs ih =>
    obtain ⟨object, hn, hp⟩ := ih
    obtain ⟨R, hi⟩ := inductive_inv.reachIf (hr.step hc hs)
    have hreach := hr.mono fun _ _ _ => trivial
    exact hp.step hn hi.opened (unmade hreach) (allotted hreach) hs

/-! ## The other end -/

/-- What is open and was not closed is referred to. -/
theorem Inv.refers (hi : s.Inv R) (hn : s.Named object) {st : Stream} (hlt : i < s.opens)
    (hobject : object i = st) (hopen : i ∉ s.closes) :
    ∃ g r, s.refers g r ∧ (s.FT g).stream = some st := by
  obtain ⟨g, hg, rfl⟩ := (hi.opened.all i hlt).resolve_left hopen
  obtain ⟨r, hr⟩ := List.exists_mem_of_ne_nil _ hg
  obtain ⟨st', hst⟩ := Option.ne_none_iff_exists'.mp (hi.opened.stream g hg)
  have hsame := (hn.stream g st' hst).2
  refine ⟨g, r, ?_, by rw [hst, ← hsame, hobject]⟩
  cases r with
  | entry p fid => exact (hi.files.entries g p fid).mp hr
  | thread u => exact (hi.files.threads g u).mp hr

/-- **A thread sleeps in a pipe only as long as somebody has the other end of it.** -/
structure Partnered (s : Streams) : Prop where
  readers : ∀ u f q size, s.pc u = .reading f q size false →
    (s.FT f).stream = some (.reader q) → ∃ g r, s.refers g r ∧ (s.FT g).stream = some (.writer q)
  writers : ∀ u f q buf size, s.pc u = .writing f q buf size false →
    (s.FT f).stream = some (.writer q) → ∃ g r, s.refers g r ∧ (s.FT g).stream = some (.reader q)

end Streams

/-- **Who sleeps in a pipe has a partner**, where no pipe is used after it was freed. -/
theorem sleepers_have_partners {s : Streams}
    (hr : streamSys.ReachIf (fun s a => s.Proper a) s) : s.Partnered := by
  have hsound := hr.mono fun _ _ h => h.sound
  obtain ⟨R, hi⟩ := Streams.inductive_inv.reachIf hsound
  obtain ⟨object, hn, hp⟩ := Streams.exists_paired hsound
  obtain ⟨e, he⟩ : ∃ e, pipesSys.ReachIf (fun x a => x.1.Proper a) (s, e) := hr.record
  constructor
  case readers =>
    intro u f q size hu hf
    obtain ⟨hlt, hobject⟩ := hn.stream f _ hf
    obtain ⟨-, j, hj, hwriter⟩ := hp.ends _ hlt q (.inl hobject)
    refine hi.refers hn hj hwriter fun hclosed => ?_
    have hblocked := PipeEnds.blocked (Streams.pipe_reach (he.mono fun _ _ _ => trivial) q)
    have hopen : (s.pipe q).writerClosed = false :=
      (hblocked.readers u size (Streams.asleep_reading hu)).2
    simp [hp.writer j hclosed q hwriter] at hopen
  case writers =>
    intro u f q buf size hu hf
    obtain ⟨hlt, hobject⟩ := hn.stream f _ hf
    obtain ⟨⟨j, hj, hreader⟩, -⟩ := hp.ends _ hlt q (.inr hobject)
    refine hi.refers hn hj hreader fun hclosed => ?_
    have hpipe : (endsSys Nat).ReachIf
        (fun t b => b = .closeReader → ∀ u, (t.pc u).inWrite = false) (s.ends q (e q)) :=
      Streams.pipe_reachIf he fun x a hreach hc => ⟨fun _ _ _ he => absurd he (by simp),
        fun hq log he u => by rw [(hc.allows hreach).reader hq log he u]; rfl,
        fun _ _ he => absurd he (by simp)⟩
    have hout : ((s.pc u).pipePc q).inWrite = false :=
      PipeEnds.writers_out.reachIf hpipe (hp.reader j hclosed q hreader) u
    simp [Streams.asleep_writing hu, PipePc.inWrite] at hout

/-- A child inherits both ends of a pipe, closes the write end and sleeps in a `Read`; its parent has the
write end in the fid 5. -/
theorem sleepers_have_partners_run : ∃ s : Streams,
    (streamSys.ReachIf (fun s a => s.Proper a) s ∧
      s.pc 1 = .reading 0 0 4 false ∧ s.FIDT 2 1 = none ∧ s.FIDT 1 1 = none) ∧ s.Partnered := by
  obtain ⟨s, hr, hp⟩ := Sys.reachIf_of_exec (M := streamSys)
    (C := fun s a => s.Proper a) (fun s a => decide (s.Proper a))
    (.initial 0) [.pipe 0 true, .exec 0 2 true, .close 1 1, .dup2 0 1 5, .close 0 1, .close 0 0,
      .read 1 0 4 false]
    (fun s => decide (s.pc 1 = .reading 0 0 4 false ∧ s.FIDT 2 1 = none ∧ s.FIDT 1 1 = none))
    (fun _ _ h => of_decide_eq_true h) ⟨0, rfl⟩ (by decide)
  exact ⟨s, ⟨hr, of_decide_eq_true hp⟩, sleepers_have_partners hr⟩

end TinyOS
