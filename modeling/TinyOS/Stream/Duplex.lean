import Mathlib
import TinyOS.Stream.Halves
import TinyOS.Stream.Allotted

/-!
# Talking over a connection

What `Read`, `Write` and `ShutDown` on the two ends of a connection come to, in any order and any
number: **each direction delivers in order what was written to it, and is shut down on its own**
(`shutdown_one_way`).
-/

set_option autoImplicit false

namespace TinyOS

open Transition

/-- What a `Read` or `Write` that does not fall asleep returns, the bytes that it has moved, and the
pipes that it leaves. -/
structure Transfer where
  code : Int
  bytes : List Byte
  pipe : Nat → PipeCB

namespace Streams

/-- `socket_read`, up to where it falls asleep or returns. -/
def socketRead (s : Streams) (k size : Nat) : Option Transfer :=
  match (s.scb k).type, (s.scb k).peer with
  | .peer, some _ =>
    match (s.scb k).receive with
    | some q =>
      match pipeRead (s.pipe q) size with
      | .wait => none
      | .ret code bytes b _ => some ⟨code, bytes, Function.update s.pipe q b⟩
    | none => some ⟨0, [], s.pipe⟩
  | _, _ => some ⟨-1, [], s.pipe⟩

/-- `socket_write`. -/
def socketWrite (s : Streams) (k : Nat) (buf : List Byte) (size : Nat) : Option Transfer :=
  match (s.scb k).type, (s.scb k).peer with
  | .peer, some _ =>
    match (s.scb k).send with
    | some q =>
      match pipeWrite (s.pipe q) (bytes buf) size with
      | .wait => none
      | .ret code b _ =>
        some ⟨code, (List.range code.toNat).map (bytes buf), Function.update s.pipe q b⟩
    | none => some ⟨-1, [], s.pipe⟩
  | _, _ => some ⟨-1, [], s.pipe⟩

/-- The bytes that wait for a `Read` of the SCB `k`. -/
def inTransit (s : Streams) (k : Nat) : List Byte :=
  match (s.scb k).receive with
  | some q => (s.pipe q).stored
  | none => []

variable {s s' : Streams} {x y : Nat} {q q' : Option Nat} {h h' : Half}

/-! ## One call -/

/-- A `Read` takes what is there. If there is nothing, it sleeps as long as more may come, and
returns 0 otherwise. -/
theorem Direction.read (hd : s.Direction x y q h) (htype : (s.scb y).type = .peer) {j : Nat}
    (hpeer : (s.scb y).peer = some j) (size : Nat) :
    (s.inTransit y = [] ∧
      s.socketRead y size = if h = .opened ∧ q ≠ none then none else some ⟨0, [], s.pipe⟩) ∨
    ∃ i b, q = some i ∧ s.inTransit y ≠ [] ∧ s.inTransit y = (s.pipe i).stored ∧
      s.socketRead y size = some
        ⟨((s.inTransit y).take (asked size)).length, (s.inTransit y).take (asked size),
          Function.update s.pipe i b⟩ ∧
      b.Ok ∧ b.stored = (s.inTransit y).drop (asked size) ∧
      b.readerClosed = (s.pipe i).readerClosed ∧ b.writerClosed = (s.pipe i).writerClosed := by
  have hreceive := hd.receive
  unfold socketRead inTransit
  rw [htype, hpeer]
  cases hr : (s.scb y).receive with
  | none =>
    refine .inl ⟨rfl, ?_⟩
    rw [hr, Half.receive] at hreceive
    have hno : ¬ (h = .opened ∧ q ≠ none) := by
      rintro ⟨rfl, hq⟩
      exact hq hreceive.symm
    rw [if_neg hno]
  | some i =>
    rw [hr, Half.receive] at hreceive
    split at hreceive
    · exact absurd hreceive (by simp)
    rename_i hshut
    subst hreceive
    simp only
    rw [pipeRead_asked (hd.ok i rfl)]
    rcases pipeRead_spec (hd.ok i rfl) (asked_pos size) with
      ⟨hempty, hread⟩ | ⟨b, hread, hpos, hok, hstored, hrc, hwc⟩
    · refine .inl ⟨hempty, ?_⟩
      have hclosed := hd.writerClosed i rfl
      rw [hread, hclosed]
      cases h with
      | opened => simp [Half.writerClosed]
      | writerShut => simp [Half.writerClosed]
      | shut => exact absurd rfl hshut
    · have hlen : (s.pipe i).stored.length = (s.pipe i).used := by simp [PipeCB.stored]
      refine .inr ⟨i, b, rfl, ?_, rfl, ?_, hok, hstored, hrc, hwc⟩
      · rw [← List.length_pos_iff, hlen]
        omega
      · rw [hread, List.length_take, hlen]

/-- A `Write` adds what fits, or sleeps if nothing does; once the direction is shut down in one way
or the other, it returns -1. -/
theorem Direction.write (hd : s.Direction x y q h) (htype : (s.scb x).type = .peer) {j : Nat}
    (hpeer : (s.scb x).peer = some j) (buf : List Byte) (size : Nat) :
    (h.send q = none ∧ s.socketWrite x buf size = some ⟨-1, [], s.pipe⟩) ∨
    ∃ i, h = .opened ∧ q = some i ∧ s.inTransit y = (s.pipe i).stored ∧
      (((s.pipe i).availableSpace = 0 ∧ s.socketWrite x buf size = none) ∨
        ∃ b n, 0 < n ∧ s.socketWrite x buf size = some
            ⟨(n : Nat), (List.range n).map (bytes buf), Function.update s.pipe i b⟩ ∧
          n = min (asked size) (s.pipe i).availableSpace ∧ b.Ok ∧
          b.stored = (s.pipe i).stored ++ (List.range n).map (bytes buf) ∧
          b.readerClosed = (s.pipe i).readerClosed ∧
          b.writerClosed = (s.pipe i).writerClosed) := by
  have hsend := hd.send
  unfold socketWrite
  rw [htype, hpeer]
  cases hr : (s.scb x).send with
  | none => exact .inl ⟨hsend.symm.trans hr, rfl⟩
  | some i =>
    rw [hr, Half.send] at hsend
    split at hsend
    · rename_i hopen
      subst hsend hopen
      have hreceive : (s.scb y).receive = some i := hd.receive
      have hclosed : (s.pipe i).readerClosed = false := hd.readerClosed i rfl
      refine .inr ⟨i, rfl, rfl, ?_, ?_⟩
      · rw [inTransit, hreceive]
      simp only
      rw [pipeWrite, hclosed, if_neg (by simp), pipeWriteLoop_asked (hd.ok i rfl)]
      rcases pipeWriteLoop_spec (bytes buf) (hd.ok i rfl) (asked_pos size) with
        ⟨hfull, hwrite⟩ | ⟨b, hwrite, hpos, hok, hstored, hrc, hwc⟩
      · rw [hwrite]
        exact .inl ⟨hfull, rfl⟩
      · rw [hwrite]
        exact .inr ⟨b, _, hpos, rfl, rfl, hok, hstored, hrc.trans hclosed, hwc⟩
    · exact absurd hsend (by simp)

/-! ## The calls of the kernel -/

/-- Nothing but pipes and files has changed, and nobody has gone to sleep in a pipe. -/
structure Talks (s s' : Streams) : Prop where
  scb : s'.scb = s.scb
  freedPipe : s'.freedPipe = s.freedPipe
  freedSCB : s'.freedSCB = s.freedSCB
  pc : ∀ u, (s'.pc u).pipe = none ∨ (s'.pc u).pipe = (s.pc u).pipe

theorem Talks.returnFrom (u f : Nat) : Talks s (s.returnFrom u f) := by
  refine ⟨rfl, rfl, rfl, fun v => ?_⟩
  simp only [Streams.returnFrom, Streams.goto, Function.update_apply]
  split
  · exact .inl rfl
  · exact .inr rfl

theorem Talks.trans {s'' : Streams} (h : Talks s s') (h' : Talks s' s'') : Talks s s'' := by
  refine ⟨h'.scb.trans h.scb, h'.freedPipe.trans h.freedPipe, h'.freedSCB.trans h.freedSCB,
    fun u => ?_⟩
  rcases h'.pc u with he | he
  · exact .inl he
  · rw [he]
    exact h.pc u

theorem pipe_wakeReader (i : Nat) (pc : StreamPc) : (pc.wakeReader i).pipe = pc.pipe := by
  cases pc <;> rfl

theorem pipe_wakeWriter (i : Nat) (pc : StreamPc) : (pc.wakeWriter i).pipe = pc.pipe := by
  cases pc <;> rfl

theorem talks_setPipe (i : Nat) (b : PipeCB) : Talks s (s.setPipe i b) :=
  ⟨rfl, rfl, rfl, fun _ => .inr rfl⟩

theorem talks_broadcastHasData (i : Nat) : Talks s (s.broadcastHasData i) :=
  ⟨rfl, rfl, rfl, fun _ => .inr (pipe_wakeReader ..)⟩

theorem talks_broadcastHasSpace (i : Nat) : Talks s (s.broadcastHasSpace i) :=
  ⟨rfl, rfl, rfl, fun _ => .inr (pipe_wakeWriter ..)⟩

theorem talks_access (k : Nat) : Talks s (s.access k) := by
  unfold access
  split <;> exact ⟨rfl, rfl, rfl, fun _ => .inr rfl⟩

theorem talks_incref (f : Nat) : Talks s { s with toFileTables := s.increfFCB f } :=
  ⟨rfl, rfl, rfl, fun _ => .inr rfl⟩

theorem access_pipe (k : Nat) : (s.access k).pipe = s.pipe := by
  unfold access
  split <;> rfl

/-- The FCB that a fid denotes, where it denotes a socket. -/
theorem getFCB_of_denoted {t : FileTables} {p k : Nat} {fd : Int} (hk : denoted t p fd = some k) :
    ∃ f, t.getFCB p fd = some f ∧ (t.FT f).stream = some (.socket k) :=
  Option.bind_eq_some_iff.mp (denoted_eq hk)

/-- `sys_Read` on a socket that does not fall asleep. -/
theorem sysRead_socket {u k size : Nat} {fd : Int} {data : Bool} {t : Transfer}
    (hk : denoted s.toFileTables (s.owner u) fd = some k) (ht : s.socketRead k size = some t)
    (hs : s.sysRead u fd size data = some s') : Talks s s' ∧ s'.pipe = t.pipe := by
  obtain ⟨f, hf, hst⟩ := getFCB_of_denoted hk
  obtain ⟨s₁, hs₁, htalk, hpipe⟩ : ∃ s₁, s₁ =
      ({ s with toFileTables := s.increfFCB f } : Streams).access k ∧ Talks s s₁ ∧
      s₁.pipe = s.pipe :=
    ⟨_, rfl, (talks_incref f).trans (talks_access k), access_pipe k⟩
  unfold sysRead at hs
  simp only [hf, hst] at hs
  rw [← hs₁, htalk.scb] at hs
  unfold socketRead at ht
  split at hs
  · rename_i j i htype hpeer hreceive
    simp only [htype, hpeer, hreceive] at ht
    cases hs
    unfold pipeReadStretch
    rw [hpipe]
    split
    · rename_i hwait
      simp [hwait] at ht
    · rename_i code bytes b wake hret
      simp only [hret, Option.some.injEq] at ht
      subst ht
      refine ⟨(htalk.trans (talks_setPipe i b)).trans ?_, ?_⟩
      · split
        · exact (talks_broadcastHasSpace i).trans (Talks.returnFrom u f)
        · exact Talks.returnFrom u f
      · rw [← hpipe]
        split <;> rfl
  · rename_i hno
    cases hs
    refine ⟨htalk.trans (Talks.returnFrom u f), ?_⟩
    change s₁.pipe = t.pipe
    rw [hpipe]
    split at ht
    · split at ht
      · rename_i j htype hpeer _ i hreceive
        exact absurd hreceive (hno j i htype hpeer)
      · cases ht
        rfl
    · cases ht
      rfl

/-- And `sys_Write`. -/
theorem sysWrite_socket {u k size : Nat} {fd : Int} {buf : List Byte} {t : Transfer}
    (hk : denoted s.toFileTables (s.owner u) fd = some k) (ht : s.socketWrite k buf size = some t)
    (hs : s.sysWrite u fd buf size = some s') : Talks s s' ∧ s'.pipe = t.pipe := by
  obtain ⟨f, hf, hst⟩ := getFCB_of_denoted hk
  obtain ⟨s₁, hs₁, htalk, hpipe⟩ : ∃ s₁, s₁ =
      ({ s with toFileTables := s.increfFCB f } : Streams).access k ∧ Talks s s₁ ∧
      s₁.pipe = s.pipe :=
    ⟨_, rfl, (talks_incref f).trans (talks_access k), access_pipe k⟩
  unfold sysWrite at hs
  simp only [hf, hst] at hs
  rw [← hs₁, htalk.scb] at hs
  unfold socketWrite at ht
  split at hs
  · rename_i j i htype hpeer hsend
    simp only [htype, hpeer, hsend] at ht
    cases hs
    unfold endWrite
    rw [hpipe]
    split
    · rename_i hwait
      simp [hwait] at ht
    · rename_i code b wake hret
      simp only [hret, Option.some.injEq] at ht
      subst ht
      refine ⟨(htalk.trans (talks_setPipe i b)).trans ?_, ?_⟩
      · split
        · exact (talks_broadcastHasData i).trans (Talks.returnFrom u f)
        · exact Talks.returnFrom u f
      · rw [← hpipe]
        split <;> rfl
  · rename_i hno
    cases hs
    refine ⟨htalk.trans (Talks.returnFrom u f), ?_⟩
    change s₁.pipe = t.pipe
    rw [hpipe]
    split at ht
    · split at ht
      · rename_i j htype hpeer _ i hsend
        exact absurd hsend (hno j i htype hpeer)
      · cases ht
        rfl
    · cases ht
      rfl

/-- The reference that a `Read` or `Write` held is dropped, and is not the last one. -/
theorem decrefFCB_kept {p f : Nat} (hf : (s.FT f).refcount ≠ 1) (hs : s.decrefFCB p f = some s') :
    Talks s s' ∧ s'.pipe = s.pipe := by
  rw [decrefFCB_of_ne hs hf]
  exact ⟨⟨rfl, rfl, rfl, fun _ => .inr rfl⟩, rfl⟩

/-- A connection is what it was if its pipes are sound, and as far closed as before. -/
theorem Direction.talks (hd : s.Direction x y q h) (ht : Talks s s')
    (hpipe : ∀ i, q = some i → (s'.pipe i).Ok ∧
      (s'.pipe i).readerClosed = (s.pipe i).readerClosed ∧
      (s'.pipe i).writerClosed = (s.pipe i).writerClosed) : s'.Direction x y q h := by
  refine ⟨ht.scb ▸ hd.send, ht.scb ▸ hd.receive, fun i hi => ?_, fun i hi => ?_,
    fun i hi => ht.freedPipe ▸ hd.freed i hi, fun i hi => (hpipe i hi).1, fun i hi u => ?_⟩
  · rw [(hpipe i hi).2.1, hd.readerClosed i hi]
  · rw [(hpipe i hi).2.2, hd.writerClosed i hi]
  · rcases ht.pc u with he | he <;> rw [he]
    · simp
    · exact hd.idle i hi u

/-- The bytes in transit are in the pipe, unless the reader has shut the direction down. -/
theorem Direction.inTransit (hd : s.Direction x y q h) : s.inTransit y =
    if h = .shut then [] else (q.map fun i => (s.pipe i).stored).getD [] := by
  unfold Streams.inTransit
  rw [hd.receive, Half.receive]
  split_ifs
  · rfl
  · cases q <;> rfl

/-- A `Read` takes its bytes off the front, and changes no other pipe. -/
theorem Direction.read_transfer (hd : s.Direction x y q h) (htype : (s.scb y).type = .peer)
    {j : Nat} (hpeer : (s.scb y).peer = some j) {size : Nat} {t : Transfer}
    (ht : s.socketRead y size = some t) (hscb : s'.scb = s.scb) (hp : s'.pipe = t.pipe) :
    (∀ i, q = some i → (s'.pipe i).Ok ∧ (s'.pipe i).readerClosed = (s.pipe i).readerClosed ∧
      (s'.pipe i).writerClosed = (s.pipe i).writerClosed) ∧
    (∀ i, q ≠ some i → s'.pipe i = s.pipe i) ∧
    s.inTransit y = t.bytes ++ s'.inTransit y := by
  rcases hd.read htype hpeer size with
    ⟨hempty, hread⟩ | ⟨i, b, rfl, hne, htransit, hread, hok, hstored, hrc, hwc⟩
  · rw [ht] at hread
    split at hread
    · exact absurd hread (by simp)
    · cases hread
      have hpipe : s'.pipe = s.pipe := hp
      have hsame : s'.inTransit y = s.inTransit y := by
        unfold Streams.inTransit
        rw [hscb, hpipe]
      rw [hpipe, hsame]
      exact ⟨fun i hi => ⟨hd.ok i hi, rfl, rfl⟩, fun _ _ => rfl, rfl⟩
  · rw [ht, Option.some.injEq] at hread
    subst hread
    have hpipe : s'.pipe = Function.update s.pipe i b := hp
    refine ⟨fun j hj => ?_, fun j hj => ?_, ?_⟩
    · cases hj
      rw [hpipe, Function.update_self]
      exact ⟨hok, hrc, hwc⟩
    · rw [hpipe, Function.update_of_ne (fun he => hj (congrArg some he.symm))]
    · have hopen : (s.scb y).receive = some i := by
        by_contra hnone
        have hreceive := hd.receive
        rw [Half.receive] at hreceive
        split at hreceive
        · exact hne (by rw [Streams.inTransit, hreceive])
        · exact hnone hreceive
      have hleft : s'.inTransit y = (s.inTransit y).drop (asked size) := by
        rw [Streams.inTransit, hscb, hopen]
        simp only [hpipe, Function.update_self, hstored]
      rw [hleft, List.take_append_drop]

/-- A `Write` adds its bytes at the end. -/
theorem Direction.write_transfer (hd : s.Direction x y q h) (htype : (s.scb x).type = .peer)
    {j : Nat} (hpeer : (s.scb x).peer = some j) {buf : List Byte} {size : Nat} {t : Transfer}
    (ht : s.socketWrite x buf size = some t) (hscb : s'.scb = s.scb) (hp : s'.pipe = t.pipe) :
    (∀ i, q = some i → (s'.pipe i).Ok ∧ (s'.pipe i).readerClosed = (s.pipe i).readerClosed ∧
      (s'.pipe i).writerClosed = (s.pipe i).writerClosed) ∧
    (∀ i, q ≠ some i → s'.pipe i = s.pipe i) ∧
    s'.inTransit y = s.inTransit y ++ t.bytes := by
  rcases hd.write htype hpeer buf size with ⟨-, hwrite⟩ | ⟨i, rfl, rfl, htransit, hcase⟩
  · rw [ht, Option.some.injEq] at hwrite
    subst hwrite
    have hpipe : s'.pipe = s.pipe := hp
    have hsame : s'.inTransit y = s.inTransit y := by
      unfold Streams.inTransit
      rw [hscb, hpipe]
    rw [hpipe, hsame]
    exact ⟨fun i hi => ⟨hd.ok i hi, rfl, rfl⟩, fun _ _ => rfl, (List.append_nil _).symm⟩
  · rcases hcase with ⟨-, hwrite⟩ | ⟨b, n, -, hwrite, -, hok, hstored, hrc, hwc⟩
    · exact absurd (ht.symm.trans hwrite) (by simp)
    rw [ht, Option.some.injEq] at hwrite
    subst hwrite
    have hpipe : s'.pipe = Function.update s.pipe i b := hp
    refine ⟨fun j hj => ?_, fun j hj => ?_, ?_⟩
    · cases hj
      rw [hpipe, Function.update_self]
      exact ⟨hok, hrc, hwc⟩
    · rw [hpipe, Function.update_of_ne (fun he => hj (congrArg some he.symm))]
    · have hopen : (s.scb y).receive = some i := hd.receive
      rw [htransit, Streams.inTransit, hscb, hopen]
      simp only [hpipe, Function.update_self, hstored]

end Streams

/-! ## A conversation -/

/-- What was done at each socket: the bytes that its `Write`s took and that its `Read`s delivered, and
whether it was shut down for reading and for writing. -/
structure Talk where
  sent : Nat → List Byte
  received : Nat → List Byte
  shutRead : Nat → Bool
  shutWrite : Nat → Bool

namespace Talk

def nothing : Talk where
  sent _ := []
  received _ := []
  shutRead _ := false
  shutWrite _ := false

def read (t : Talk) (k : Nat) (bs : List Byte) : Talk :=
  { t with received := Function.update t.received k (t.received k ++ bs) }

def write (t : Talk) (k : Nat) (bs : List Byte) : Talk :=
  { t with sent := Function.update t.sent k (t.sent k ++ bs) }

def shut (t : Talk) (k : Nat) (how : ShutdownMode) : Talk :=
  { t with
    shutRead := if how = .read ∨ how = .both then Function.update t.shutRead k true else t.shutRead
    shutWrite :=
      if how = .write ∨ how = .both then Function.update t.shutWrite k true else t.shutWrite }

theorem shutRead_mono (t : Talk) (x : Nat) (how : ShutdownMode) {k : Nat}
    (hk : t.shutRead k = true) : (t.shut x how).shutRead k = true := by
  simp only [shut]
  split
  · simp only [Function.update_apply]
    split
    · rfl
    · exact hk
  · exact hk

/-- A side that was shut down before. -/
theorem shut_eq (t : Talk) (k : Nat) (how : ShutdownMode)
    (hr : how = .read ∨ how = .both → t.shutRead k = true)
    (hw : how = .write ∨ how = .both → t.shutWrite k = true) : t.shut k how = t := by
  have hread : (t.shut k how).shutRead = t.shutRead := by
    simp only [shut]
    split
    · rename_i hh
      rw [← hr hh, Function.update_eq_self]
    · rfl
  have hwrite : (t.shut k how).shutWrite = t.shutWrite := by
    simp only [shut]
    split
    · rename_i hh
      rw [← hw hh, Function.update_eq_self]
    · rfl
  calc t.shut k how
      = { t with shutRead := (t.shut k how).shutRead
                 shutWrite := (t.shut k how).shutWrite } := rfl
    _ = t := by rw [hread, hwrite]

end Talk

/-- How far a direction is shut down that was at `h` at first, if its writer or its reader has shut
it down since. -/
def Half.since (h : Half) (writer reader : Bool) : Half :=
  if reader then .shut else if writer then h.shutWrite else h

theorem Half.since_eq_shut (h : Half) (w r : Bool) : h.since w r = .shut ↔ r = true ∨ h = .shut := by
  cases r <;> cases w <;> cases h <;> simp [Half.since, Half.shutWrite]

theorem Half.since_shut (h : Half) (t : Talk) {a b : Nat} (hab : a ≠ b) (k : Nat)
    (hk : k = a ∨ k = b) (how : ShutdownMode) :
    (h.since (t.shutWrite a) (t.shutRead b)).after (k = a) how =
      h.since ((t.shut k how).shutWrite a) ((t.shut k how).shutRead b) := by
  rcases hk with rfl | rfl
  · cases hr : t.shutRead b <;> cases hw : t.shutWrite k <;> cases how <;> cases h <;>
      simp [Half.since, Half.after, Talk.shut, Half.shutWrite, hab.symm, hr, hw]
  · cases hr : t.shutRead k <;> cases hw : t.shutWrite a <;> cases how <;> cases h <;>
      simp [Half.since, Half.after, Talk.shut, Half.shutWrite, hab, hab.symm, hr, hw]

namespace Streams

/-- The record of a conversation. -/
def converse (s : Streams) (act : StreamAction) (_ : Streams) (t : Talk) : Talk :=
  match act with
  | .read u fd size _ =>
    match denoted s.toFileTables (s.owner u) fd with
    | some k => t.read k (((s.socketRead k size).map Transfer.bytes).getD [])
    | none => t
  | .write u fd buf size =>
    match denoted s.toFileTables (s.owner u) fd with
    | some k => t.write k (((s.socketWrite k buf size).map Transfer.bytes).getD [])
    | none => t
  | .shutDown u sock how =>
    match denoted s.toFileTables (s.owner u) sock with
    | some k => t.shut k how
    | none => t
  | _ => t

/-- A `Read`, `Write` or `ShutDown` of `a` or `b` that does not fall asleep, or the rest of one, after
which the socket is still open. -/
def OnPair (a b : Nat) (s : Streams) : StreamAction → Prop
  | .read u fd size _ => ∃ k ∈ [a, b], denoted s.toFileTables (s.owner u) fd = some k ∧
    (s.socketRead k size).isSome
  | .write u fd buf size => ∃ k ∈ [a, b], denoted s.toFileTables (s.owner u) fd = some k ∧
    (s.socketWrite k buf size).isSome
  | .shutDown u sock _ => ∃ k ∈ [a, b], denoted s.toFileTables (s.owner u) sock = some k
  | .proceed u =>
    match s.pc u with
    | .returning f => (s.FT f).refcount ≠ 1
    | _ => False
  | _ => False

instance (a b : Nat) (s : Streams) : (act : StreamAction) → Decidable (s.OnPair a b act)
  | .read u fd size _ => inferInstanceAs (Decidable (∃ k ∈ [a, b],
      denoted s.toFileTables (s.owner u) fd = some k ∧ (s.socketRead k size).isSome))
  | .write u fd buf size => inferInstanceAs (Decidable (∃ k ∈ [a, b],
      denoted s.toFileTables (s.owner u) fd = some k ∧ (s.socketWrite k buf size).isSome))
  | .shutDown u sock _ => inferInstanceAs (Decidable (∃ k ∈ [a, b],
      denoted s.toFileTables (s.owner u) sock = some k))
  | .proceed u =>
    (match s.pc u with
    | .returning f => inferInstanceAs (Decidable ((s.FT f).refcount ≠ 1))
    | .unborn | .running | .reading .. | .writing .. | .serialReading .. | .accepting ..
    | .connecting .. | .exiting .. | .exited => .isFalse id :
      Decidable (match s.pc u with
        | .returning f => (s.FT f).refcount ≠ 1
        | _ => False))
  | .openNull .. | .openTerminal .. | .pipe .. | .socket .. | .openInfo .. | .listen .. | .accept ..
  | .connect .. | .close .. | .dup2 .. | .exec .. | .createThread .. | .exit .. | .reap ..
  | .resume .. | .rxReady | .timeout .. => .isFalse id

/-- What was in transit or sent is received, in transit, or lost to a reader that has shut down. -/
def Carried (s₀ s : Streams) (t : Talk) (a b : Nat) : Prop :=
  ∃ lost, s₀.inTransit b ++ t.sent a = t.received b ++ (s.inTransit b ++ lost) ∧
    (t.shutRead b = false → lost = [])

structure Talking (s₀ s : Streams) (t : Talk) (a b : Nat) (q q' : Option Nat) (h h' : Half) :
    Prop where
  connected : s.Connected a b q q' (h.since (t.shutWrite a) (t.shutRead b))
    (h'.since (t.shutWrite b) (t.shutRead a))
  there : Carried s₀ s t a b
  back : Carried s₀ s t b a
  freed : ∀ i, s.freedPipe i ≤ 1 ∨ s.freedPipe i = s₀.freedPipe i

variable {s₀ s s' : Streams} {t : Talk} {a b : Nat} {q q' : Option Nat} {h h' : Half}

theorem Talking.symm (ht : Talking s₀ s t a b q q' h h') : Talking s₀ s t b a q' q h' h :=
  ⟨ht.connected.symm, ht.back, ht.there, ht.freed⟩

theorem Connected.talks (hc : s.Connected a b q q' h h') (ht : Talks s s')
    (hpipe : ∀ i, q = some i ∨ q' = some i → (s'.pipe i).Ok ∧
      (s'.pipe i).readerClosed = (s.pipe i).readerClosed ∧
      (s'.pipe i).writerClosed = (s.pipe i).writerClosed) : s'.Connected a b q q' h h' :=
  ⟨hc.ne, ht.scb ▸ hc.type_a, ht.scb ▸ hc.type_b, ht.scb ▸ hc.peer_a, ht.scb ▸ hc.peer_b,
    ht.freedSCB ▸ hc.live_a, ht.freedSCB ▸ hc.live_b,
    hc.there.talks ht fun i hi => hpipe i (.inl hi),
    hc.back.talks ht fun i hi => hpipe i (.inr hi), hc.apart⟩

/-- The other pipe of a connection. -/
theorem Connected.other (hc : s.Connected a b q q' h h')
    (hsame : ∀ i, q ≠ some i → s'.pipe i = s.pipe i)
    (hpipe : ∀ i, q = some i → (s'.pipe i).Ok ∧
      (s'.pipe i).readerClosed = (s.pipe i).readerClosed ∧
      (s'.pipe i).writerClosed = (s.pipe i).writerClosed) :
    ∀ i, q = some i ∨ q' = some i → (s'.pipe i).Ok ∧
      (s'.pipe i).readerClosed = (s.pipe i).readerClosed ∧
      (s'.pipe i).writerClosed = (s.pipe i).writerClosed := by
  rintro i (hi | hi)
  · exact hpipe i hi
  · rw [hsame i fun hq => hc.apart i hq hi]
    exact ⟨hc.back.ok i hi, rfl, rfl⟩

theorem Connected.inTransit_other (hc : s.Connected a b q q' h h') (ht : Talks s s')
    (hsame : ∀ i, q ≠ some i → s'.pipe i = s.pipe i) : s'.inTransit a = s.inTransit a := by
  unfold inTransit
  rw [ht.scb]
  cases hr : (s.scb a).receive with
  | none => rfl
  | some i =>
    have hq' : q' = some i := by
      have hreceive := hc.back.receive
      rw [hr, Half.receive] at hreceive
      split at hreceive
      · exact absurd hreceive (by simp)
      · exact hreceive.symm
    simp only
    rw [hsame i fun hq => hc.apart i hq hq']

theorem Talking.read (ht : Talking s₀ s t a b q q' h h') (htalk : Talks s s') {size : Nat}
    {r : Transfer} (hr : s.socketRead b size = some r) (hp : s'.pipe = r.pipe) :
    Talking s₀ s' (t.read b r.bytes) a b q q' h h' := by
  have hc := ht.connected
  obtain ⟨hpipe, hsame, htransit⟩ :=
    hc.there.read_transfer hc.type_b hc.peer_b hr htalk.scb hp
  refine ⟨hc.talks htalk (hc.other hsame hpipe), ?_, ?_, htalk.freedPipe ▸ ht.freed⟩
  · obtain ⟨lost, heq, hlost⟩ := ht.there
    refine ⟨lost, ?_, hlost⟩
    simp only [Talk.read, Function.update_self]
    rw [heq, htransit]
    simp only [List.append_assoc]
  · obtain ⟨lost, heq, hlost⟩ := ht.back
    refine ⟨lost, ?_, hlost⟩
    simp only [Talk.read, Function.update_of_ne hc.ne]
    rw [heq, hc.inTransit_other htalk hsame]

theorem Talking.write (ht : Talking s₀ s t a b q q' h h') (htalk : Talks s s')
    {buf : List Byte} {size : Nat} {r : Transfer} (hr : s.socketWrite a buf size = some r)
    (hp : s'.pipe = r.pipe) : Talking s₀ s' (t.write a r.bytes) a b q q' h h' := by
  have hc := ht.connected
  obtain ⟨hpipe, hsame, htransit⟩ :=
    hc.there.write_transfer hc.type_a hc.peer_a hr htalk.scb hp
  refine ⟨hc.talks htalk (hc.other hsame hpipe), ?_, ?_, htalk.freedPipe ▸ ht.freed⟩
  · obtain ⟨lost, heq, hlost⟩ := ht.there
    refine ⟨lost, ?_, hlost⟩
    have hnone : r.bytes ++ lost = lost ++ r.bytes := by
      cases hb : t.shutRead b with
      | false => rw [hlost hb, List.append_nil, List.nil_append]
      | true =>
        -- The direction is shut down, and the call has returned -1.
        have hd := hc.there
        rw [hb, Half.since, if_pos rfl] at hd
        rcases hd.write hc.type_a hc.peer_a buf size with ⟨-, hwrite⟩ | ⟨i, hopen, -⟩
        · rw [hr, Option.some.injEq] at hwrite
          rw [hwrite, List.append_nil, List.nil_append]
        · exact absurd hopen (by simp)
    simp only [Talk.write, Function.update_self]
    rw [← List.append_assoc, heq, htransit]
    simp only [List.append_assoc, hnone]
  · obtain ⟨lost, heq, hlost⟩ := ht.back
    refine ⟨lost, ?_, hlost⟩
    simp only [Talk.write, Function.update_of_ne hc.ne.symm]
    rw [heq, hc.inTransit_other htalk hsame]

theorem stored_setBoth (k k' : Half) (i : Nat) :
    ((s.setBoth a b q q' k k').pipe i).stored = (s.pipe i).stored := by
  simp only [setBoth, setDirection]
  split_ifs <;> rfl

/-- A direction that is shut down further keeps its bytes, or loses all of them. -/
theorem Carried.shut {l' : Half} (hcarried : Carried s₀ s t a b) (x : Nat) (how : ShutdownMode)
    (hd : s.Direction a b q (h.since (t.shutWrite a) (t.shutRead b)))
    (hd' : (s.setBoth a b q q' (h.since ((t.shut x how).shutWrite a) ((t.shut x how).shutRead b))
      l').Direction a b q (h.since ((t.shut x how).shutWrite a) ((t.shut x how).shutRead b))) :
    Carried s₀ (s.setBoth a b q q'
      (h.since ((t.shut x how).shutWrite a) ((t.shut x how).shutRead b)) l') (t.shut x how) a b := by
  obtain ⟨lost, heq, hlost⟩ := hcarried
  have hmono : (t.shut x how).shutRead b = false → t.shutRead b = false := fun hf => by
    by_contra htrue
    rw [t.shutRead_mono x how (by simpa using htrue)] at hf
    exact absurd hf (by simp)
  have hstored : (q.map fun i => ((s.setBoth a b q q' (h.since ((t.shut x how).shutWrite a)
      ((t.shut x how).shutRead b)) l').pipe i).stored) = q.map fun i => (s.pipe i).stored := by
    simp only [stored_setBoth]
  by_cases hold : t.shutRead b = true ∨ h = .shut
  · -- Nothing was left before.
    have hnew : (t.shut x how).shutRead b = true ∨ h = .shut :=
      hold.imp_left (t.shutRead_mono x how)
    refine ⟨lost, ?_, fun hf => hlost (hmono hf)⟩
    rw [hd'.inTransit, if_pos ((h.since_eq_shut ..).mpr hnew)]
    rw [hd.inTransit, if_pos ((h.since_eq_shut ..).mpr hold)] at heq
    exact heq
  · by_cases hnew : (t.shut x how).shutRead b = true ∨ h = .shut
    · have hread := hnew.resolve_right fun he => hold (.inr he)
      refine ⟨s.inTransit b ++ lost, ?_, fun hf => absurd (hread.symm.trans hf) (by simp)⟩
      rw [hd'.inTransit, if_pos ((h.since_eq_shut ..).mpr hnew), List.nil_append]
      exact heq
    · refine ⟨lost, ?_, fun hf => hlost (hmono hf)⟩
      rw [hd'.inTransit, if_neg (mt (h.since_eq_shut ..).mp hnew), hstored]
      rw [hd.inTransit, if_neg (mt (h.since_eq_shut ..).mp hold)] at heq
      exact heq

theorem freed_setBoth (hs : ∀ i, s.freedPipe i ≤ 1 ∨ s.freedPipe i = s₀.freedPipe i)
    (k k' : Half) (i : Nat) : (s.setBoth a b q q' k k').freedPipe i ≤ 1 ∨
      (s.setBoth a b q q' k k').freedPipe i = s₀.freedPipe i := by
  have hle : ∀ l : Half, l.freed ≤ 1 := fun l => by cases l <;> simp [Half.freed]
  simp only [setBoth, setDirection]
  split_ifs
  · exact .inl (hle _)
  · exact .inl (hle _)
  · exact hs i

theorem Talking.shut (ht : Talking s₀ s t a b q q' h h') {p x : Nat} {fd : Int}
    (hx : denoted s.toFileTables p fd = some x) (hab : x = a ∨ x = b) (how : ShutdownMode) :
    Talking s₀ (s.sysShutDown p fd how) (t.shut x how) a b q q' h h' := by
  have hc := ht.connected
  have hc' : (s.sysShutDown p fd how).Connected a b q q' _ _ := hc.shutDown hx hab
  have hthere := h.since_shut t hc.ne x hab how
  have hback := h'.since_shut t hc.ne.symm x hab.symm how
  rw [hc.shutDown_eq hx hab, hthere, hback] at hc' ⊢
  refine ⟨hc', ht.there.shut x how hc.there hc'.there, ?_, freed_setBoth ht.freed _ _⟩
  rw [hc.setBoth_symm] at hc' ⊢
  exact ht.back.shut x how hc.back hc'.back

theorem Talking.step (ht : Talking s₀ s t a b q q' h h') {act : StreamAction}
    (hon : s.OnPair a b act) (hs : s.perform act = some s') :
    Talking s₀ s' (s.converse act s' t) a b q q' h h' := by
  have hab : ∀ {k}, k ∈ [a, b] → k = a ∨ k = b := fun hk => by simpa using hk
  rcases perform_cases hs with ⟨p, rfl, -, -⟩ | ⟨v, data, m, rfl, -, -⟩ | ⟨v, rfl, -, hs⟩ |
    ⟨rfl, -⟩ | ⟨v, r, rfl, -, -⟩ | ⟨v, hv, -, -, hs⟩
  · exact absurd hon id
  · exact absurd hon id
  · -- A call returns.
    simp only [OnPair] at hon
    unfold Streams.proceed at hs
    split at hon
    · rename_i f hf
      simp only [hf] at hs
      obtain ⟨htalk, hpipe⟩ := decrefFCB_kept (by exact hon) hs
      have htalk : Talks s s' := by
        refine ⟨htalk.scb, htalk.freedPipe, htalk.freedSCB, fun w => ?_⟩
        rcases htalk.pc w with he | he
        · exact .inl he
        · rw [he]
          simp only [Streams.goto, Function.update_apply]
          split
          · exact .inl rfl
          · exact .inr rfl
      have hpipe : s'.pipe = s.pipe := hpipe
      have hsame : ∀ k, s'.inTransit k = s.inTransit k := fun k => by
        unfold inTransit
        rw [htalk.scb, hpipe]
      have hc := ht.connected
      change Talking s₀ s' t a b q q' h h'
      refine ⟨hc.talks htalk fun i hi => ?_, ?_, ?_, htalk.freedPipe ▸ ht.freed⟩
      · rw [hpipe]
        exact ⟨hi.elim (hc.there.ok i) (hc.back.ok i), rfl, rfl⟩
      · simpa only [Carried, hsame] using ht.there
      · simpa only [Carried, hsame] using ht.back
    · exact absurd hon id
  · exact absurd hon id
  · exact absurd hon id
  · cases act with
    | read u fd size data =>
      obtain rfl := Option.some.inj hv
      obtain ⟨k, hk, hden, hr⟩ := hon
      obtain ⟨r, hr⟩ := Option.isSome_iff_exists.mp hr
      obtain ⟨htalk, hp⟩ := sysRead_socket hden hr hs
      simp only [converse, hden, hr, Option.map_some, Option.getD_some]
      rcases hab hk with rfl | rfl
      · exact (ht.symm.read htalk hr hp).symm
      · exact ht.read htalk hr hp
    | write u fd buf size =>
      obtain rfl := Option.some.inj hv
      obtain ⟨k, hk, hden, hr⟩ := hon
      obtain ⟨r, hr⟩ := Option.isSome_iff_exists.mp hr
      obtain ⟨htalk, hp⟩ := sysWrite_socket hden hr hs
      simp only [converse, hden, hr, Option.map_some, Option.getD_some]
      rcases hab hk with rfl | rfl
      · exact ht.write htalk hr hp
      · exact (ht.symm.write htalk hr hp).symm
    | shutDown u sock how =>
      obtain rfl := Option.some.inj hv
      obtain ⟨k, hk, hden⟩ := hon
      cases hs
      simp only [converse, hden]
      exact ht.shut hden (hab hk) how
    | proceed => exact absurd hv (by simp [caller])
    | _ => exact absurd hon id

/-! ## What holds at every moment of a conversation -/

/-- The direction from `a` to `b`. -/
structure OneWay (s₀ s : Streams) (t : Talk) (a b : Nat) : Prop where
  /-- What is sent arrives in order, and nothing is lost but what the reader gives up. -/
  inOrder : ∃ lost, s₀.inTransit b ++ t.sent a = t.received b ++ (s.inTransit b ++ lost) ∧
    (t.shutRead b = false → lost = [])
  /-- Once either end has shut it down, every `Write` returns -1. -/
  refused : t.shutWrite a = true ∨ t.shutRead b = true → ∀ buf size,
    s.socketWrite a buf size = some ⟨-1, [], s.pipe⟩
  /-- Once the writer has, every `Read` returns the next bytes, or 0 when there are no more. -/
  drained : t.shutWrite a = true ∨ t.shutRead b = true → ∀ size, ∃ r,
    s.socketRead b size = some r ∧ r.bytes = (s.inTransit b).take (asked size) ∧
      r.code = r.bytes.length
  /-- As long as neither has, and it was open at first, bytes are moved. -/
  flows : (s₀.scb a).send ≠ none → t.shutWrite a = false → t.shutRead b = false →
    (∀ buf size, match s.socketWrite a buf size with
      | some r => 0 < r.code
      | none => (s.inTransit b).length = buffSize) ∧
    ∀ size, match s.socketRead b size with
      | some r => 0 < r.code ∧ r.bytes = (s.inTransit b).take (asked size)
      | none => s.inTransit b = []

/-- `ShutDown`s at the two ends `a` and `b`, by any processes. -/
structure ShutDowns (s : Streams) (t : Talk) (a b : Nat) : Prop where
  again : ∀ p fd k how, denoted s.toFileTables p fd = some k → k = a ∨ k = b →
    (s.sysShutDown p fd how).sysShutDown p fd how = s.sysShutDown p fd how
  both : ∀ p fd k, denoted s.toFileTables p fd = some k → k = a ∨ k = b →
    s.sysShutDown p fd .both = (s.sysShutDown p fd .read).sysShutDown p fd .write
  comm : ∀ p fd k how p' fd' k' how', denoted s.toFileTables p fd = some k → k = a ∨ k = b →
    denoted s.toFileTables p' fd' = some k' → k' = a ∨ k' = b →
    (s.sysShutDown p fd how).sysShutDown p' fd' how' =
      (s.sysShutDown p' fd' how').sysShutDown p fd how
  /-- A side that was shut down at any time before is not changed. -/
  later : ∀ p fd k how, denoted s.toFileTables p fd = some k → k = a ∨ k = b →
    (how = .read ∨ how = .both → t.shutRead k = true) →
    (how = .write ∨ how = .both → t.shutWrite k = true) → s.sysShutDown p fd how = s
  /-- No end points to a pipe that was freed. -/
  live : ∀ k i, k = a ∨ k = b → (s.scb k).send = some i ∨ (s.scb k).receive = some i →
    s.freedPipe i = 0

theorem Half.since_opened {h : Half} {w r : Bool} (ho : h.since w r = .opened) :
    w = false ∧ r = false ∧ h = .opened := by
  cases w <;> cases r <;> cases h <;> simp_all [Half.since, Half.shutWrite]

theorem Talking.oneWay (h₀ : s₀.Connected a b q q' h h') (ht : Talking s₀ s t a b q q' h h') :
    OneWay s₀ s t a b := by
  have hc := ht.connected
  have hd := hc.there
  have hclosed : t.shutWrite a = true ∨ t.shutRead b = true →
      h.since (t.shutWrite a) (t.shutRead b) ≠ .opened := by
    rintro hwr ho
    obtain ⟨hw, hr, -⟩ := Half.since_opened ho
    simp [hw, hr] at hwr
  refine ⟨ht.there, fun hwr buf size => ?_, fun hwr size => ?_, fun hsend hw hr => ?_⟩
  · rcases hd.write hc.type_a hc.peer_a buf size with ⟨-, hwrite⟩ | ⟨i, ho, -⟩
    · exact hwrite
    · exact absurd ho (hclosed hwr)
  · rcases hd.read hc.type_b hc.peer_b size with ⟨hempty, hread⟩ | ⟨i, b', -, -, -, hread, -⟩
    · rw [if_neg fun ho => hclosed hwr ho.1] at hread
      exact ⟨_, hread, by rw [hempty, List.take_nil], rfl⟩
    · exact ⟨_, hread, rfl, rfl⟩
  · rw [h₀.there.send, Half.send] at hsend
    have hopen : h = .opened := by
      by_contra hne
      exact hsend (if_neg hne)
    subst hopen
    obtain ⟨i, rfl⟩ := Option.ne_none_iff_exists'.mp hsend
    have ho : Half.opened.since (t.shutWrite a) (t.shutRead b) = .opened := by
      rw [hw, hr]
      rfl
    rw [ho] at hd
    refine ⟨fun buf size => ?_, fun size => ?_⟩
    · rcases hd.write hc.type_a hc.peer_a buf size with ⟨hnone, -⟩ | ⟨j, -, hj, htransit, hcase⟩
      · exact absurd hnone (by simp [Half.send])
      · obtain rfl := Option.some.inj hj
        rcases hcase with ⟨hfull, hwrite⟩ | ⟨b', n, hpos, hwrite, -⟩
        · rw [hwrite, htransit]
          simp [PipeCB.stored, PipeCB.used, hfull]
        · rw [hwrite]
          exact Int.natCast_pos.mpr hpos
    · rcases hd.read hc.type_b hc.peer_b size with ⟨hempty, hread⟩ | ⟨j, b', -, hne, -, hread, -⟩
      · rw [hread, if_pos ⟨rfl, by simp⟩]
        exact hempty
      · rw [hread]
        refine ⟨Int.natCast_pos.mpr (List.length_pos_iff.mpr fun hnil => ?_), rfl⟩
        rcases List.take_eq_nil_iff.mp hnil with hz | hz
        · have := asked_pos size
          omega
        · exact hne hz

theorem Connected.setBoth_self (hc : s.Connected a b q q' h h') :
    s.setBoth a b q q' h h' = s := by
  rw [Streams.setBoth, setDirection_self hc.back, setDirection_self hc.there]

/-- No end of a direction points to a pipe that was freed. -/
theorem Direction.live (hd : s.Direction a b q h) {i : Nat}
    (hi : (s.scb a).send = some i ∨ (s.scb b).receive = some i) : s.freedPipe i = 0 := by
  rw [hd.send, hd.receive, Half.send, Half.receive] at hi
  rcases hi with hi | hi <;> split at hi
  · rename_i ho
    rw [hd.freed i hi, ho]
    rfl
  · exact absurd hi (by simp)
  · exact absurd hi (by simp)
  · rename_i ho
    rw [hd.freed i hi, Half.freed, if_neg ho]

theorem Talking.shutDowns (ht : Talking s₀ s t a b q q' h h') : ShutDowns s t a b := by
  have hc := ht.connected
  refine ⟨fun p fd k how hk hab => hc.shutDown_self hk hab,
    fun p fd k hk hab => hc.shutDown_both hk hab,
    fun p fd k how p' fd' k' how' hk hab hk' hab' => hc.shutDown_comm hk hab hk' hab',
    fun p fd k how hk hab hr hw => ?_, fun k i hab hi => ?_⟩
  · rw [hc.shutDown_eq hk hab, h.since_shut t hc.ne k hab how,
      h'.since_shut t hc.ne.symm k hab.symm how, t.shut_eq k how hr hw, hc.setBoth_self]
  · rcases hab with rfl | rfl
    · rcases hi with hi | hi
      · exact hc.there.live (.inl hi)
      · exact hc.back.live (.inr hi)
    · rcases hi with hi | hi
      · exact hc.back.live (.inl hi)
      · exact hc.there.live (.inr hi)

/-- What can be evaluated of a connection through the pipes `i` and `i'` that is open both ways. -/
def PairOf (s : Streams) (a b i i' : Nat) : Prop :=
  a ≠ b ∧ ((s.scb a).type = .peer ∧ (s.scb a).peer = some b ∧ s.freedSCB a = 0) ∧
    ((s.scb b).type = .peer ∧ (s.scb b).peer = some a ∧ s.freedSCB b = 0) ∧
    ((s.scb a).send = some i ∧ (s.scb b).receive = some i ∧ (s.scb b).send = some i' ∧
      (s.scb a).receive = some i') ∧ i ≠ i' ∧
    (∀ j ∈ [i, i'], (s.pipe j).readerClosed = false ∧ (s.pipe j).writerClosed = false ∧
      s.freedPipe j = 0 ∧ (s.pipe j).Ok) ∧ ∀ u < s.threads, (s.pc u).pipe = none

instance (s : Streams) (a b i i' : Nat) : Decidable (s.PairOf a b i i') := by
  unfold PairOf
  infer_instance

theorem PairOf.connected {i i' : Nat} (hp : s.PairOf a b i i') {C : Streams → StreamAction → Prop}
    (hr : streamSys.ReachIf C s) : s.Connected a b (some i) (some i') .opened .opened := by
  obtain ⟨hne, ⟨hta, hpa, hla⟩, ⟨htb, hpb, hlb⟩, ⟨hsa, hrb, hsb, hra⟩, hii, hpipes, hidle⟩ := hp
  have hpc : ∀ u j, (s.pc u).pipe ≠ some j := fun u j => by
    by_cases hu : u < s.threads
    · rw [hidle u hu]
      simp
    · have hborn : (s.pc u).socketPc = .unborn :=
        ((allotted hr).born u).mpr (Nat.le_of_not_lt hu)
      cases hpu : s.pc u <;> simp [hpu, StreamPc.socketPc, StreamPc.pipe] at hborn ⊢
  have hdir : ∀ j ∈ [i, i'], ∀ x y, (s.scb x).send = some j → (s.scb y).receive = some j →
      s.Direction x y (some j) .opened := by
    intro j hj x y hx hy
    obtain ⟨hrc, hwc, hfreed, hok⟩ := hpipes j hj
    constructor
    case send => exact hx
    case receive => exact hy
    all_goals
      rintro l hl
      obtain rfl := Option.some.inj hl
    case readerClosed => exact hrc
    case writerClosed => exact hwc
    case freed => exact hfreed
    case ok => exact hok
    case idle => exact fun u => hpc u j
  exact ⟨hne, hta, htb, hpa, hpb, hla, hlb, hdir i (by simp) a b hsa hrb,
    hdir i' (by simp) b a hsb hra, fun j hj hj' => hii
      (Option.some.inj (hj.trans hj'.symm))⟩

/-- The kernel from `s₀` on, with the record of the conversation. -/
abbrev talkSys (s₀ : Streams) : Sys (Streams × Talk) StreamAction :=
  Sys.record { init := fun s => s = s₀, step := Streams.perform } .nothing converse

theorem talking (h₀ : s₀.Connected a b q q' h h') {x : Streams × Talk}
    (hr : (talkSys s₀).ReachIf (fun x act => x.1.OnPair a b act) x) :
    Talking s₀ x.1 x.2 a b q q' h h' := by
  induction hr with
  | init hi =>
    obtain ⟨hx, ht⟩ := hi
    rw [hx, ht]
    refine ⟨h₀, ⟨[], ?_, fun _ => rfl⟩, ⟨[], ?_, fun _ => rfl⟩, fun i => .inr rfl⟩ <;>
      simp [Talk.nothing]
  | step _ hc hs ih =>
    obtain ⟨s', hs', rfl⟩ := Option.map_eq_some_iff.mp hs
    exact ih.step hc hs'

end Streams

/-- **Each direction of a connection delivers in order what was written to it, and is shut down on
its own**, in every conversation of two connected sockets. -/
theorem shutdown_one_way (s₀ : Streams) (a b : Nat) (q q' : Option Nat) (h h' : Half)
    (h₀ : s₀.Connected a b q q' h h') (x : Streams × Talk)
    (hr : (Streams.talkSys s₀).ReachIf (fun x act => x.1.OnPair a b act) x) :
    Streams.OneWay s₀ x.1 x.2 a b ∧ Streams.OneWay s₀ x.1 x.2 b a ∧
      Streams.ShutDowns x.1 x.2 a b ∧
      ∀ i, x.1.freedPipe i ≤ 1 ∨ x.1.freedPipe i = s₀.freedPipe i := by
  have ht := Streams.talking h₀ hr
  exact ⟨ht.oneWay h₀, ht.symm.oneWay h₀.symm, ht.shutDowns, ht.freed⟩

/-- A client writes, shuts its write side down and still reads. -/
theorem shutdown_one_way_run : ∃ s₀ : Streams, ∃ x : Streams × Talk,
    Streams.OneWay s₀ x.1 x.2 1 2 ∧ x.2.sent 1 = [1, 2, 3] ∧ x.2.received 2 = [1, 2] ∧
      x.1.inTransit 2 = [3] ∧ x.2.shutWrite 1 = true ∧ x.2.received 1 = [9] := by
  have hrun : ((streamSys.exec (fun _ _ => true) (Streams.initial 0)
      [.socket 0 7 true, .listen 0 0, .socket 0 0 true, .createThread 0, .connect 1 1 7 true,
        .accept 0 0 ⟨true, true, true⟩]).bind fun s₀ =>
      ((Streams.talkSys s₀).exec (fun x act => decide (x.1.OnPair 1 2 act)) (s₀, .nothing)
        [.write 0 1 [1, 2, 3] 3, .proceed 0, .shutDown 0 1 .write, .read 0 2 2 false, .proceed 0,
          .write 0 2 [9] 1, .proceed 0, .read 0 1 5 false]).map fun x => decide
        (s₀.PairOf 1 2 0 1 ∧ x.2.sent 1 = [1, 2, 3] ∧ x.2.received 2 = [1, 2] ∧
          x.1.inTransit 2 = [3] ∧ x.2.shutWrite 1 = true ∧ x.2.received 1 = [9])) = some true := by
    decide
  obtain ⟨s₀, hs₀, hx⟩ := Option.bind_eq_some_iff.mp hrun
  obtain ⟨x, hx, hp⟩ := Option.map_eq_some_iff.mp hx
  obtain ⟨hpair, hp⟩ := of_decide_eq_true hp
  have hr₀ : streamSys.ReachIf (fun _ _ => True) s₀ :=
    Sys.ReachIf.exec (fun _ _ _ => trivial) (.init ⟨0, rfl⟩) hs₀
  have hr := Sys.ReachIf.exec (M := Streams.talkSys s₀) (C := fun x act => x.1.OnPair 1 2 act)
    (fun x act hc => of_decide_eq_true hc) (.init ⟨rfl, rfl⟩) hx
  exact ⟨s₀, x, (shutdown_one_way s₀ 1 2 _ _ _ _ (hpair.connected hr₀) x hr).1, hp⟩

end TinyOS
