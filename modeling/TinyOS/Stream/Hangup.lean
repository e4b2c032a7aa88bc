import TinyOS.Stream.Drop
import TinyOS.Stream.Duplex

/-!
# Hanging up

What one end of a connection sees once the other is gone. After `ShutDown` of both sides of its peer,
every `Write` returns -1, and the `Read`s deliver what is in transit before they return 0. **When the
last reference to its peer is dropped, the same happens only if nothing is in transit, and the `fid`
in the peer's SCB leads to the connection** (`hang_up`): `socket_close` takes the pipe away from the
one who still reads from it, and shuts down what it finds.
-/

set_option autoImplicit false

namespace TinyOS

open Transition

/-- The pipe `p'` is `p` with further ends closed. -/
structure PipeCB.Shuts (p p' : PipeCB) : Prop where
  eq : p' = { p with readerClosed := p'.readerClosed, writerClosed := p'.writerClosed }
  reader : p.readerClosed = true → p'.readerClosed = true
  writer : p.writerClosed = true → p'.writerClosed = true

namespace PipeCB.Shuts

variable {p p' p'' : PipeCB}

theorem refl (p : PipeCB) : PipeCB.Shuts p p := ⟨rfl, id, id⟩

theorem trans (h : PipeCB.Shuts p p') (h' : PipeCB.Shuts p' p'') : PipeCB.Shuts p p'' := by
  refine ⟨?_, h'.reader ∘ h.reader, h'.writer ∘ h.writer⟩
  have heq := h'.eq
  rw [h.eq] at heq
  exact heq

theorem stored (h : PipeCB.Shuts p p') : p'.stored = p.stored := by
  rw [h.eq]
  rfl

theorem ok (h : PipeCB.Shuts p p') (hok : p.Ok) : p'.Ok := by
  rw [h.eq]
  exact ⟨hok.readP, hok.writeP, hok.availableSpace, hok.inStep⟩

end PipeCB.Shuts

namespace Streams

variable {s s' : Streams} {act : StreamAction} {a b k j p i q : Nat} {fd : Int}

/-! ## What `ShutDown` closes -/

theorem shuts_writerClose (q i : Nat) : PipeCB.Shuts (s.pipe i) ((s.writerClose q).pipe i) ∧
    ((s.writerClose q).pipe i).readerClosed = (s.pipe i).readerClosed ∧
    ((s.writerClose q).pipe q).writerClosed = true := by
  unfold writerClose
  split
  · rename_i hclosed
    exact ⟨.refl _, rfl, hclosed⟩
  · simp only [broadcastHasData, setPipe]
    refine ⟨?_, ?_, by rw [Function.update_self]⟩
    · by_cases hi : i = q
      · subst hi
        rw [Function.update_self]
        exact ⟨rfl, id, fun _ => rfl⟩
      · rw [Function.update_of_ne hi]
        exact .refl _
    · by_cases hi : i = q
      · subst hi
        rw [Function.update_self]
      · rw [Function.update_of_ne hi]

theorem shuts_readerClose (q i : Nat) : PipeCB.Shuts (s.pipe i) ((s.readerClose q).pipe i) ∧
    (((s.readerClose q).pipe i).readerClosed = true ↔ (s.pipe i).readerClosed = true ∨ i = q) := by
  unfold readerClose
  split
  · rename_i hclosed
    refine ⟨.refl _, Or.inl, ?_⟩
    rintro (h | rfl)
    · exact h
    · exact hclosed
  · obtain ⟨hshuts, hreader, -⟩ := shuts_writerClose
      (s := (s.setPipe q { s.pipe q with readerClosed := true }).broadcastHasSpace q) q i
    have hset : PipeCB.Shuts (s.pipe i) ((s.setPipe q { s.pipe q with readerClosed := true }).pipe i) ∧
        (((s.setPipe q { s.pipe q with readerClosed := true }).pipe i).readerClosed = true ↔
          (s.pipe i).readerClosed = true ∨ i = q) := by
      simp only [setPipe]
      by_cases hi : i = q
      · subst hi
        rw [Function.update_self]
        exact ⟨⟨rfl, fun _ => rfl, id⟩, by simp⟩
      · rw [Function.update_of_ne hi]
        exact ⟨.refl _, by simp [hi]⟩
    exact ⟨hset.1.trans hshuts, by simp only [hreader]; exact hset.2⟩

theorem shuts_shutRead (k j i : Nat) : PipeCB.Shuts (s.pipe i) ((s.shutRead k j).pipe i) ∧
    (((s.shutRead k j).pipe i).readerClosed = true ↔
      (s.pipe i).readerClosed = true ∨ (s.scb k).receive = some i) := by
  unfold shutRead
  cases hr : (s.scb k).receive with
  | none => exact ⟨.refl _, by simp⟩
  | some q =>
    obtain ⟨hshuts, hreader⟩ := shuts_readerClose (s := s) q i
    simp only [modifySCB, access_pipe]
    refine ⟨hshuts, hreader.trans (or_congr_right ?_)⟩
    rw [Option.some.injEq]
    exact eq_comm

theorem shuts_shutWrite (k i : Nat) : PipeCB.Shuts (s.pipe i) ((s.shutWrite k).pipe i) ∧
    ((s.shutWrite k).pipe i).readerClosed = (s.pipe i).readerClosed ∧
    ((s.scb k).send = some i → ((s.shutWrite k).pipe i).writerClosed = true) := by
  unfold shutWrite
  cases hr : (s.scb k).send with
  | none => exact ⟨.refl _, rfl, by simp⟩
  | some q =>
    obtain ⟨hshuts, hreader, hwriter⟩ := shuts_writerClose (s := s) q i
    refine ⟨hshuts, hreader, fun hi => ?_⟩
    obtain rfl := Option.some.inj hi
    exact hwriter

/-- The socket whose connection a `ShutDown` of `k` closes, and its peer. -/
def ShutsOff (s : Streams) (target : Option Nat) (k j : Nat) : Prop :=
  target = some k ∧ (s.scb k).type = .peer ∧ (s.scb k).peer = some j

theorem sysShutDown_both (h : s.ShutsOff (denoted s.toFileTables p fd) k j) :
    s.sysShutDown p fd .both = ((s.access k).shutRead k j).shutWrite k := by
  obtain ⟨hk, htype, hpeer⟩ := h
  have hscb : (s.access k).scb = s.scb := congrArg Sockets.scb (s.sockets_access k)
  unfold sysShutDown
  rw [denoted_eq hk]
  simp [hscb, htype, hpeer]

theorem sysShutDown_nothing (how : ShutdownMode)
    (h : ∀ k j, ¬ s.ShutsOff (denoted s.toFileTables p fd) k j) :
    (s.sysShutDown p fd how).pipe = s.pipe := by
  unfold sysShutDown
  split
  · rename_i k hk
    have hden : denoted s.toFileTables p fd = some k := by rw [denoted, hk]; rfl
    have hscb : (s.access k).scb = s.scb := congrArg Sockets.scb (s.sockets_access k)
    simp only [hscb]
    split
    · rename_i j htype hpeer
      exact absurd ⟨hden, htype, hpeer⟩ (h k j)
    · exact access_pipe k
  · rfl

theorem shuts_sysShutDown (p : Nat) (fd : Int) (i : Nat) :
    PipeCB.Shuts (s.pipe i) ((s.sysShutDown p fd .both).pipe i) ∧
    (((s.sysShutDown p fd .both).pipe i).readerClosed = true ↔ (s.pipe i).readerClosed = true ∨
      ∃ k j, s.ShutsOff (denoted s.toFileTables p fd) k j ∧ (s.scb k).receive = some i) := by
  by_cases h : ∃ k j, s.ShutsOff (denoted s.toFileTables p fd) k j
  · obtain ⟨k, j, h⟩ := h
    have hscb : (s.access k).scb = s.scb := congrArg Sockets.scb (s.sockets_access k)
    obtain ⟨hread, hreader⟩ := shuts_shutRead (s := s.access k) k j i
    obtain ⟨hwrite, hsame, -⟩ := shuts_shutWrite (s := (s.access k).shutRead k j) k i
    rw [access_pipe, hscb] at hreader
    rw [access_pipe] at hread
    rw [sysShutDown_both h, hsame]
    refine ⟨hread.trans hwrite, hreader.trans (or_congr_right ⟨fun hr => ⟨k, j, h, hr⟩, ?_⟩)⟩
    rintro ⟨k', j', h', hr⟩
    obtain rfl := Option.some.inj (h.1.symm.trans h'.1)
    exact hr
  · rw [sysShutDown_nothing .both fun k j hkj => h ⟨k, j, hkj⟩]
    exact ⟨.refl _, Or.inl, fun hr => hr.resolve_right fun ⟨k, j, hkj, _⟩ => h ⟨k, j, hkj⟩⟩

/-! ## What is seen at an end -/

/-- Nothing comes or goes any more but the bytes `rest`. -/
structure HungUp (s : Streams) (b : Nat) (rest : List Byte) : Prop where
  write : ∀ buf size, ∃ pipe, s.socketWrite b buf size = some ⟨-1, [], pipe⟩
  read : ∀ size, ∃ pipe, s.socketRead b size =
    some ⟨(rest.take (asked size)).length, rest.take (asked size), pipe⟩

/-- A `Read` or `Write` of `b`, or the rest of one. -/
def AtEnd (s : Streams) (b : Nat) (act : StreamAction) : Prop :=
  s.OnPair b b act ∧ ∀ u sock how, act ≠ .shutDown u sock how

/-- Whatever `Read`s and `Write`s of `b` there are from `s₀` on, in any order and any number, the
`Read`s deliver `data` and nothing else. -/
def HangsUp (s₀ : Streams) (b : Nat) (data : List Byte) : Prop :=
  ∀ x, (talkSys s₀).ReachIf (fun x act => x.1.AtEnd b act) x →
    ∃ rest, data = x.2.received b ++ rest ∧ x.1.HungUp b rest

/-- The end `b` does not send, and its pipe is closed by the writer. -/
structure Hung (s : Streams) (b : Nat) : Prop where
  type : (s.scb b).type = .peer
  peer : ∃ j, (s.scb b).peer = some j
  send : ∀ i, (s.scb b).send = some i → (s.pipe i).readerClosed = true
  receive : ∀ i, (s.scb b).receive = some i → (s.pipe i).Ok ∧ (s.pipe i).writerClosed = true

theorem Hung.congr (h : s.Hung b) (hscb : s'.scb b = s.scb b) (hpipe : s'.pipe = s.pipe) :
    s'.Hung b := by
  obtain ⟨htype, hpeer, hsend, hreceive⟩ := h
  rw [← hscb] at htype hpeer hsend hreceive
  rw [← hpipe] at hsend hreceive
  exact ⟨htype, hpeer, hsend, hreceive⟩

theorem inTransit_congr (hscb : s'.scb b = s.scb b) (hpipe : s'.pipe = s.pipe) :
    s'.inTransit b = s.inTransit b := by
  unfold inTransit
  rw [hscb, hpipe]

theorem Hung.write (h : s.Hung b) (buf : List Byte) (size : Nat) :
    s.socketWrite b buf size = some ⟨-1, [], s.pipe⟩ := by
  obtain ⟨j, hpeer⟩ := h.peer
  unfold socketWrite
  rw [h.type, hpeer]
  cases hsend : (s.scb b).send with
  | none => rfl
  | some i =>
    simp only
    rw [pipeWrite, h.send i hsend, if_pos rfl]
    simp

theorem Hung.read (h : s.Hung b) (size : Nat) : ∃ r, s.socketRead b size = some r ∧
    r.bytes = (s.inTransit b).take (asked size) ∧ r.code = r.bytes.length ∧
    ∀ s' : Streams, s'.scb = s.scb → s'.pipe = r.pipe →
      s'.Hung b ∧ s'.inTransit b = (s.inTransit b).drop (asked size) := by
  obtain ⟨j, hpeer⟩ := h.peer
  unfold socketRead inTransit
  rw [h.type, hpeer]
  cases hreceive : (s.scb b).receive with
  | none =>
    refine ⟨_, rfl, List.take_nil.symm, rfl, fun s' hscb hpipe => ⟨?_, ?_⟩⟩
    · exact h.congr (congrFun hscb b) hpipe
    · rw [hscb, hreceive]
      exact List.drop_nil.symm
  | some i =>
    obtain ⟨hok, hclosed⟩ := h.receive i hreceive
    simp only
    rw [pipeRead_asked hok]
    rcases pipeRead_spec hok (asked_pos size) with
      ⟨hempty, hread⟩ | ⟨p', hread, -, hok', hstored, hrc, hwc⟩
    · rw [hread, hclosed, if_pos rfl]
      refine ⟨_, rfl, by rw [hempty, List.take_nil], rfl, fun s' hscb hpipe => ?_⟩
      have hpipe : s'.pipe = s.pipe := by
        rw [hpipe]
        exact Function.update_eq_self ..
      refine ⟨h.congr (congrFun hscb b) hpipe, ?_⟩
      rw [hscb, hreceive]
      simp only
      rw [hpipe, hempty, List.drop_nil]
    · rw [hread]
      have hlen : (s.pipe i).stored.length = (s.pipe i).used := by simp [PipeCB.stored]
      refine ⟨_, rfl, rfl, ?_, fun s' hscb hpipe => ?_⟩
      · rw [List.length_take, hlen]
      · have hpipe : s'.pipe = Function.update s.pipe i p' := hpipe
        have hreader : ∀ l, (s.pipe l).readerClosed = true → (s'.pipe l).readerClosed = true := by
          intro l hl
          rw [hpipe]
          by_cases hli : l = i
          · subst hli
            rw [Function.update_self, hrc]
            exact hl
          · rw [Function.update_of_ne hli]
            exact hl
        refine ⟨⟨hscb ▸ h.type, hscb ▸ h.peer, fun l hl => hreader l (h.send l (hscb ▸ hl)),
          fun l hl => ?_⟩, ?_⟩
        · obtain rfl : i = l := Option.some.inj (hreceive.symm.trans (hscb ▸ hl))
          rw [hpipe, Function.update_self]
          exact ⟨hok', hwc.trans hclosed⟩
        · rw [hscb, hreceive]
          simp only
          rw [hpipe, Function.update_self, hstored]

theorem Hung.hungUp (h : s.Hung b) : s.HungUp b (s.inTransit b) := by
  refine ⟨fun buf size => ⟨_, h.write buf size⟩, fun size => ?_⟩
  obtain ⟨r, hr, hbytes, hcode, -⟩ := h.read size
  exact ⟨r.pipe, by rw [hr, ← hbytes, ← hcode]⟩

/-- What a call at the end `b` delivers is no longer in transit. -/
theorem Hung.step (h : s.Hung b) (hat : s.AtEnd b act) (hs : s.perform act = some s') (t : Talk) :
    s'.Hung b ∧
      (s.converse act s' t).received b ++ s'.inTransit b = t.received b ++ s.inTransit b := by
  obtain ⟨hon, hno⟩ := hat
  have hb : ∀ {k}, k ∈ [b, b] → k = b := fun hk => by simpa using hk
  rcases perform_cases hs with ⟨p, rfl, -, -⟩ | ⟨v, data, m, rfl, -, -⟩ | ⟨v, rfl, -, hs⟩ |
    ⟨rfl, -⟩ | ⟨v, r, rfl, -, -⟩ | ⟨v, hv, -, -, hs⟩
  · exact absurd hon id
  · exact absurd hon id
  · -- A call returns.
    simp only [OnPair] at hon
    unfold Streams.proceed at hs
    split at hon
    · rename_i f hf
      simp only [hf] at hs
      obtain ⟨htalk, hpipe⟩ := decrefFCB_kept (by exact hon) hs
      refine ⟨h.congr (congrFun htalk.scb b) hpipe, ?_⟩
      rw [inTransit_congr (congrFun htalk.scb b) hpipe]
      rfl
    · exact absurd hon id
  · exact absurd hon id
  · exact absurd hon id
  · cases act with
    | read u fd size data =>
      obtain rfl := Option.some.inj hv
      obtain ⟨k, hk, hden, -⟩ := hon
      obtain rfl := hb hk
      obtain ⟨r, hr, hbytes, -, hnext⟩ := h.read size
      obtain ⟨htalk, hp⟩ := sysRead_socket hden hr hs
      obtain ⟨hung, hdrop⟩ := hnext s' htalk.scb hp
      refine ⟨hung, ?_⟩
      simp only [converse, hden, hr, Option.map_some, Option.getD_some, Talk.read,
        Function.update_self]
      rw [hdrop, hbytes, List.append_assoc, List.take_append_drop]
    | write u fd buf size =>
      obtain rfl := Option.some.inj hv
      obtain ⟨k, hk, hden, -⟩ := hon
      obtain rfl := hb hk
      have hr := h.write buf size
      obtain ⟨htalk, hp⟩ := sysWrite_socket hden hr hs
      refine ⟨h.congr (congrFun htalk.scb _) hp, ?_⟩
      rw [inTransit_congr (congrFun htalk.scb _) hp]
      simp only [converse, hden, hr, Option.map_some, Option.getD_some, Talk.write]
    | shutDown u sock how => exact absurd rfl (hno u sock how)
    | proceed => exact absurd hv (by simp [caller])
    | _ => exact absurd hon id

theorem Hung.hangsUp (h : s.Hung b) : s.HangsUp b (s.inTransit b) := by
  intro x hr
  suffices hx : x.1.Hung b ∧ x.2.received b ++ x.1.inTransit b = s.inTransit b from
    ⟨_, hx.2.symm, hx.1.hungUp⟩
  induction hr with
  | init hi =>
    obtain ⟨hx, ht⟩ := hi
    rw [hx, ht]
    exact ⟨h, rfl⟩
  | step _ hc hs ih =>
    obtain ⟨s', hs', rfl⟩ := Option.map_eq_some_iff.mp hs
    obtain ⟨hung, hreceived⟩ := ih.1.step hc hs' _
    exact ⟨hung, hreceived.trans ih.2⟩

end Streams

namespace Sockets

variable {n : Sockets} {b i : Nat} {target : Option Nat}

/-- Who can write after a `ShutDown` of both sides. -/
theorem send_shutDown : ((n.shutDown .both target).scb b).send = some i ↔
    (n.scb b).send = some i ∧ ∀ t j, target = some t → (n.scb t).type = .peer →
      (n.scb t).peer = some j → t ≠ b ∧ (j = b → (n.scb t).receive = none) := by
  by_cases h : ∃ t j, target = some t ∧ (n.scb t).type = .peer ∧ (n.scb t).peer = some j
  · obtain ⟨t, j, rfl, htype, hpeer⟩ := h
    rw [shutDown_scb htype hpeer]
    simp only
    constructor
    · intro hsend
      split at hsend
      · exact absurd hsend (by simp)
      rename_i hbt
      split at hsend
      · exact absurd hsend (by simp)
      rename_i hbj
      refine ⟨hsend, fun t' j' ht' _ hpeer' => ?_⟩
      obtain rfl := Option.some.inj ht'
      obtain rfl := Option.some.inj (hpeer.symm.trans hpeer')
      exact ⟨Ne.symm hbt, fun he => by_contra fun hne => hbj ⟨he.symm, hne⟩⟩
    · rintro ⟨hsend, hno⟩
      obtain ⟨htb, hjb⟩ := hno t j rfl htype hpeer
      rw [if_neg htb.symm, if_neg fun he => he.2 (hjb he.1.symm)]
      exact hsend
  · have hno : ∀ t j, target = some t → (n.scb t).type = .peer → (n.scb t).peer ≠ some j :=
      fun t j ht htype hpeer => h ⟨t, j, ht, htype, hpeer⟩
    rw [shutDown_keeps fun t j ht htype hpeer => absurd hpeer (hno t j ht htype)]
    exact ⟨fun hsend => ⟨hsend, fun t j ht htype hpeer => absurd hpeer (hno t j ht htype)⟩, And.left⟩

end Sockets

namespace Streams

variable {s s' : Streams} {act : StreamAction} {a b i p : Nat} {q q' : Option Nat} {h h' : Half}
  {fd : Int}

/-! ## The two ways to hang up -/

/-- `a` and `b` are peers: `b` writes to the pipe that `a` reads, and reads what `a` writes or has
written. -/
structure Joined (s : Streams) (a b : Nat) : Prop where
  ne : a ≠ b
  type_a : (s.scb a).type = .peer
  type_b : (s.scb b).type = .peer
  peer_a : (s.scb a).peer = some b
  peer_b : (s.scb b).peer = some a
  send : ∀ i, (s.scb b).send = some i → (s.scb a).receive = some i
  receive : ∀ i, (s.scb b).receive = some i →
    (s.scb a).send = some i ∨ (s.pipe i).writerClosed = true
  ok : ∀ i, s.sockets.Ends b i → (s.pipe i).Ok

theorem Connected.joined (hc : s.Connected a b q q' h h') : s.Joined a b := by
  have hsend := hc.back.send
  have hreceive := hc.there.receive
  refine ⟨hc.ne, hc.type_a, hc.type_b, hc.peer_a, hc.peer_b, fun i hi => ?_, fun i hi => ?_,
    fun i hi => ?_⟩
  · rw [hsend, Half.send] at hi
    split at hi
    · rename_i hopen
      rw [hc.back.receive, hopen]
      exact hi
    · exact absurd hi (by simp)
  · rw [hreceive, Half.receive] at hi
    split at hi
    · exact absurd hi (by simp)
    rw [hc.there.send, hc.there.writerClosed i hi]
    by_cases hopen : h = .opened
    · exact .inl (by rw [hopen]; exact hi)
    · exact .inr (decide_eq_true hopen)
  · rcases hi with hi | hi
    · have hi : (s.scb b).send = some i := hi
      rw [hsend, Half.send] at hi
      split at hi
      · exact hc.back.ok i hi
      · exact absurd hi (by simp)
    · have hi : (s.scb b).receive = some i := hi
      rw [hreceive, Half.receive] at hi
      split at hi
      · exact absurd hi (by simp)
      · exact hc.there.ok i hi

/-- `ShutDown` of both sides of `a` hangs up at `b`, and takes nothing back. -/
theorem Joined.shutDown (hj : s.Joined a b) (ha : denoted s.toFileTables p fd = some a) :
    (s.sysShutDown p fd .both).Hung b ∧
      (s.sysShutDown p fd .both).inTransit b = s.inTransit b := by
  have hscb : (s.sysShutDown p fd .both).scb b = { s.scb b with
      send := if (s.scb a).receive ≠ none then none else (s.scb b).send } := by
    change (s.sysShutDown p fd .both).sockets.scb b = _
    rw [sockets_sysShutDown, ha, Sockets.shutDown_scb hj.type_a hj.peer_a, if_neg hj.ne.symm,
      if_neg hj.ne.symm]
    simp only [true_and]
    rfl
  have hshuts := fun i => (shuts_sysShutDown (s := s) p fd i).1
  refine ⟨?_, ?_⟩
  · constructor <;> rw [hscb]
    case type => exact hj.type_b
    case peer => exact ⟨a, hj.peer_b⟩
    case send =>
      intro i hi
      simp only at hi
      split at hi
      · exact absurd hi (by simp)
      · rename_i hnone
        exact absurd (by simp [hj.send i hi]) hnone
    case receive =>
      intro i hi
      refine ⟨(hshuts i).ok (hj.ok i (.inr hi)), ?_⟩
      rcases hj.receive i hi with hsend | hclosed
      · rw [sysShutDown_both ⟨ha, hj.type_a, hj.peer_a⟩]
        refine (shuts_shutWrite a i).2.2 ?_
        change (((s.access a).shutRead a b).sockets.scb a).send = some i
        rw [sockets_shutRead, sockets_access, Sockets.shutRead_scb]
        simp only [hj.ne, false_and, if_false]
        exact hsend
      · exact (hshuts i).writer hclosed
  · unfold inTransit
    rw [hscb]
    simp only
    cases (s.scb b).receive with
    | none => rfl
    | some i => exact (hshuts i).stored

/-- What the close of its peer leaves of the end `b`. -/
theorem Joined.drop (hj : s.Joined a b) (hs : s.perform act = some s')
    (hfree : s'.freedSCB a ≠ s.freedSCB a) :
    ((s'.scb b).type = .peer ∧ (s'.scb b).peer = some a ∧ (s'.scb b).receive = none) ∧
    (∀ i, (s'.scb b).send = some i ↔ (s.scb b).send = some i ∧ ∀ t j,
      s.ShutsOff (s.found act a) t j → t ≠ b ∧ (j = b → (s.scb t).receive = none)) ∧
    ∀ i, PipeCB.Shuts (s.pipe i) (s'.pipe i) ∧
      ((s'.pipe i).readerClosed = true ↔ (s.pipe i).readerClosed = true ∨
        ∃ t j, s.ShutsOff (s.found act a) t j ∧ (s.scb t).receive = some i) := by
  obtain ⟨v, hv, s₀, s₁, h₀, hclose, hden, h₁, -⟩ := drop_cases hs hfree
  have hn : s₀.sockets.scb = s.scb := h₀.scb
  have hfreed : s₁.sockets ≠ s₀.sockets := fun hsame => by
    refine hfree ?_
    rw [h₁.freedSCB, ← h₀.freedSCB]
    exact congrFun (congrArg Sockets.freedSCB hsame) a
  have hscb : ∀ i, s'.scb i = s₁.sockets.scb i := fun i => congrFun h₁.scb i
  have hc : s₀.sockets.close (s.found act a) a = some s₁.sockets := by
    rcases sockets_socketClose hclose with ⟨-, hsame⟩ | ⟨-, hc⟩
    · exact absurd hsame hfreed
    · rwa [h₀.scb, hden] at hc
  obtain ⟨j, hpeer, hform⟩ := Sockets.peerClose_scb (by rw [hn]; exact hj.type_a) hc
  obtain rfl : b = j := Option.some.inj (hj.peer_a.symm.trans (by rwa [hn] at hpeer))
  have hb := hform b
  rw [if_pos rfl] at hb
  have hkeep := (Sockets.shuts_shutDown s₀.sockets .both (s.found act a)).scb b
  have hpipe : s₁.pipe = ((s₀.access a).sysShutDown (s.owner v) (s₀.scb a).fid .both).pipe := by
    have hscb₀ : (s₀.access a).scb = s₀.scb := congrArg Sockets.scb (s₀.sockets_access a)
    unfold socketClose at hclose
    simp only [hscb₀] at hclose
    split at hclose
    · refine absurd ?_ hfreed
      rw [← Option.some.inj hclose, sockets_access]
    · rw [h₀.scb, hj.type_a] at hclose
      obtain ⟨s₂, hs₂, rfl⟩ := Option.map_eq_some_iff.mp hclose
      unfold peerClose at hs₂
      simp only at hs₂
      split at hs₂
      · exact absurd hs₂ (by simp)
      · cases hs₂
        simp only [freeSCB, modifySCB, access_pipe, hscb₀, h₀.scb]
  have hoff : ∀ t j, (s₀.access a).ShutsOff (denoted (s₀.access a).toFileTables (s.owner v)
      (s₀.scb a).fid) t j ↔ s.ShutsOff (s.found act a) t j := fun t j => by
    have hscb₀ : (s₀.access a).scb = s.scb :=
      (congrArg Sockets.scb (s₀.sockets_access a)).trans h₀.scb
    rw [access_toFileTables, h₀.scb, hden]
    simp only [ShutsOff, hscb₀]
  refine ⟨⟨?_, ?_, ?_⟩, fun i => ?_, fun i => ?_⟩
  · rw [hscb b, hb, hkeep, hn]
    exact hj.type_b
  · rw [hscb b, hb, hkeep, hn]
    exact hj.peer_b
  · rw [hscb b, hb]
  · rw [hscb b, hb]
    refine Sockets.send_shutDown.trans ?_
    rw [hn]
    exact and_congr_right fun _ => ⟨fun hno t j ht => hno t j ht.1 ht.2.1 ht.2.2,
      fun hno t j ht htype htpeer => hno t j ⟨ht, htype, htpeer⟩⟩
  · obtain ⟨hshuts, hreader⟩ := shuts_sysShutDown (s := s₀.access a) (s.owner v) (s₀.scb a).fid i
    have hscb₀ : (s₀.access a).scb = s.scb :=
      (congrArg Sockets.scb (s₀.sockets_access a)).trans h₀.scb
    rw [access_pipe, h₀.pipe] at hshuts
    rw [h₁.pipe, hpipe]
    refine ⟨hshuts, ?_⟩
    rw [access_pipe, h₀.pipe] at hreader
    simp only [hoff, hscb₀] at hreader
    exact hreader

/-- What `b` writes is cut off, if it still writes: its pipe is closed already, or the `fid` in the
SCB `a` leads to `b`, to a socket whose peer `b` is, or to one that reads this pipe. -/
def CutsOff (s : Streams) (act : StreamAction) (a b : Nat) : Prop :=
  ∀ i ∈ (s.scb b).send, (s.pipe i).readerClosed = true ∨
    ∃ t ∈ s.found act a, (s.scb t).type = .peer ∧ ∃ j ∈ (s.scb t).peer,
      t = b ∨ (j = b ∧ (s.scb t).receive ≠ none) ∨ (s.scb t).receive = some i

instance (s : Streams) (act : StreamAction) (a b : Nat) : Decidable (s.CutsOff act a b) := by
  unfold CutsOff
  infer_instance

end Streams

end TinyOS
