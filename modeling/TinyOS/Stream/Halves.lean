import TinyOS.Stream.Sockets

/-!
# The two directions of a connection

A connection has two directions, each with a pipe of its own, which is the `send` of one peer and the
`receive` of the other. How far a direction is shut down is one of three things (`Half`), and says
all about the two pointers, the flags of the pipe, and whether the pipe is freed.

**`ShutDown` sets the two directions, and does nothing else** (`Connected.shutDown_eq`). What holds
of several `ShutDown`s in a row is then a matter of `Half` alone.
-/

set_option autoImplicit false

namespace TinyOS

/-- How far a direction is shut down. -/
inductive Half where
  | opened
  /-- By its writer. -/
  | writerShut
  /-- By its reader, whether or not the writer did as well. -/
  | shut
  deriving DecidableEq

namespace Half

/-- The writer's `ShutDown` of its write side. -/
def shutWrite : Half → Half
  | .opened => .writerShut
  | h => h

/-- A `ShutDown` at one end: at the writer's, if `writer`. -/
def after (writer : Prop) [Decidable writer] (how : ShutdownMode) (h : Half) : Half :=
  if writer then (if how = .write ∨ how = .both then h.shutWrite else h)
  else if how = .read ∨ how = .both then .shut else h

/-- The writer's pointer to the pipe, if the direction has one. -/
def send (h : Half) (q : Option Nat) : Option Nat := if h = .opened then q else none

/-- And the reader's. -/
def receive (h : Half) (q : Option Nat) : Option Nat := if h = .shut then none else q

def readerClosed (h : Half) : Bool := decide (h = .shut)

def writerClosed (h : Half) : Bool := decide (h ≠ .opened)

/-- How often the pipe was freed. -/
def freed (h : Half) : Nat := if h = .shut then 1 else 0

variable (h : Half) (how how' : ShutdownMode) (w w' : Prop) [Decidable w] [Decidable w']

theorem after_self : (h.after w how).after w how = h.after w how := by
  unfold after
  cases h <;> cases how <;> by_cases hw : w <;> simp [hw, shutWrite]

theorem after_both : h.after w .both = (h.after w .read).after w .write := by
  unfold after
  cases h <;> by_cases hw : w <;> simp [hw, shutWrite]

theorem after_comm : (h.after w how).after w' how' = (h.after w' how').after w how := by
  unfold after
  cases h <;> cases how <;> cases how' <;> by_cases hw : w <;> by_cases hw' : w' <;>
    simp [hw, hw', shutWrite]

end Half

namespace StreamPc

/-- The pipe in which a thread sleeps. -/
def pipe : StreamPc → Option Nat
  | .reading _ q _ _ => some q
  | .writing _ q _ _ _ => some q
  | _ => none

variable {pc : StreamPc} {q : Nat}

theorem wakeReader_of_ne (h : pc.pipe ≠ some q) : pc.wakeReader q = pc := by
  cases pc with
  | reading f q' size ready =>
    have hne : q' ≠ q := fun he => h (congrArg some he)
    simp [wakeReader, hne]
  | _ => rfl

theorem wakeWriter_of_ne (h : pc.pipe ≠ some q) : pc.wakeWriter q = pc := by
  cases pc with
  | writing f q' buf size ready =>
    have hne : q' ≠ q := fun he => h (congrArg some he)
    simp [wakeWriter, hne]
  | _ => rfl

end StreamPc

namespace Streams

variable {s : Streams} {x y : Nat} {q q' : Option Nat} {h h' : Half}

/-- The direction from the SCB `x` to the SCB `y`: its pipe is `q`, nobody sleeps in it, and `h` says
how far it is shut down. -/
structure Direction (s : Streams) (x y : Nat) (q : Option Nat) (h : Half) : Prop where
  send : (s.scb x).send = h.send q
  receive : (s.scb y).receive = h.receive q
  readerClosed : ∀ i, q = some i → (s.pipe i).readerClosed = h.readerClosed
  writerClosed : ∀ i, q = some i → (s.pipe i).writerClosed = h.writerClosed
  freed : ∀ i, q = some i → s.freedPipe i = h.freed
  ok : ∀ i, q = some i → (s.pipe i).Ok
  idle : ∀ i, q = some i → ∀ u, (s.pc u).pipe ≠ some i

def setDirection (s : Streams) (x y : Nat) (q : Option Nat) (h : Half) : Streams :=
  { s with
    scb := fun i =>
      { s.scb i with
        send := if i = x then h.send q else (s.scb i).send
        receive := if i = y then h.receive q else (s.scb i).receive }
    pipe := fun i =>
      if q = some i then
        { s.pipe i with readerClosed := h.readerClosed, writerClosed := h.writerClosed }
      else s.pipe i
    freedPipe := fun i => if q = some i then h.freed else s.freedPipe i }

/-- Two states that differ in pipes and SCBs only are the same if these are. -/
theorem eq_of_ends {s₁ s₂ : Streams}
    (h₁ : s₁ = { s with scb := s₁.scb, pipe := s₁.pipe, freedPipe := s₁.freedPipe })
    (h₂ : s₂ = { s with scb := s₂.scb, pipe := s₂.pipe, freedPipe := s₂.freedPipe })
    (hscb : ∀ i, s₁.scb i = s₂.scb i) (hpipe : ∀ i, s₁.pipe i = s₂.pipe i)
    (hfreed : ∀ i, s₁.freedPipe i = s₂.freedPipe i) : s₁ = s₂ := by
  rw [h₁, h₂, funext hscb, funext hpipe, funext hfreed]

theorem setDirection_self (hd : s.Direction x y q h) : s.setDirection x y q h = s := by
  refine eq_of_ends (s := s) rfl rfl (fun i => ?_) (fun i => ?_) (fun i => ?_) <;>
    simp only [setDirection]
  · have hs : (if i = x then h.send q else (s.scb i).send) = (s.scb i).send := by
      split
      · rename_i he
        rw [he, hd.send]
      · rfl
    have hr : (if i = y then h.receive q else (s.scb i).receive) = (s.scb i).receive := by
      split
      · rename_i he
        rw [he, hd.receive]
      · rfl
    rw [hs, hr]
  · split
    · rename_i he
      rw [← hd.readerClosed i he, ← hd.writerClosed i he]
    · rfl
  · split
    · rename_i he
      exact (hd.freed i he).symm
    · rfl

theorem setDirection_set : (s.setDirection x y q h).setDirection x y q h' =
    s.setDirection x y q h' := by
  refine eq_of_ends (s := s) rfl rfl (fun i => ?_) (fun i => ?_) (fun i => ?_) <;>
    simp only [setDirection]
  · split_ifs <;> rfl
  · split_ifs <;> rfl
  · split_ifs <;> rfl

theorem setDirection_comm (hqq : ∀ i, q = some i → q' ≠ some i) (hxy : x ≠ y) :
    (s.setDirection x y q h).setDirection y x q' h' =
      (s.setDirection y x q' h').setDirection x y q h := by
  refine eq_of_ends (s := s) rfl rfl (fun i => ?_) (fun i => ?_) (fun i => ?_) <;>
    simp only [setDirection]
  · by_cases hx : i = x
    · simp [hx, hxy]
    · simp [hx]
  · by_cases hi : q = some i
    · simp [hi, hqq i hi]
    · simp [hi]
  · by_cases hi : q = some i
    · simp [hi, hqq i hi]
    · simp [hi]

theorem Direction.set (hd : s.Direction x y q h) : (s.setDirection x y q h').Direction x y q h' := by
  constructor <;> simp only [setDirection, if_true]
  case readerClosed => exact fun i hi => by rw [if_pos hi]
  case writerClosed => exact fun i hi => by rw [if_pos hi]
  case freed => exact fun i hi => if_pos hi
  case ok =>
    intro i hi
    rw [if_pos hi]
    obtain ⟨hreadP, hwriteP, hspace, hstep⟩ := hd.ok i hi
    exact ⟨hreadP, hwriteP, hspace, hstep⟩
  case idle => exact hd.idle

/-- To set one direction leaves the other one alone. -/
theorem Direction.set_other (hd : s.Direction y x q' h') (hxy : x ≠ y)
    (hqq : ∀ i, q' = some i → q ≠ some i) : (s.setDirection x y q h).Direction y x q' h' := by
  constructor <;> simp only [setDirection]
  case send => exact (if_neg hxy.symm).trans hd.send
  case receive => exact (if_neg hxy).trans hd.receive
  case readerClosed => exact fun i hi => by rw [if_neg (hqq i hi), hd.readerClosed i hi]
  case writerClosed => exact fun i hi => by rw [if_neg (hqq i hi), hd.writerClosed i hi]
  case freed => exact fun i hi => by rw [if_neg (hqq i hi), hd.freed i hi]
  case ok =>
    intro i hi
    rw [if_neg (hqq i hi)]
    exact hd.ok i hi
  case idle => exact hd.idle

/-! ## The two sides of `ShutDown` -/

theorem broadcastHasData_idle {i : Nat} (hi : ∀ u, (s.pc u).pipe ≠ some i) :
    s.broadcastHasData i = s := by
  have hpc : (fun u => (s.pc u).wakeReader i) = s.pc := by
    funext u
    exact StreamPc.wakeReader_of_ne (hi u)
  rw [broadcastHasData, hpc]

theorem broadcastHasSpace_idle {i : Nat} (hi : ∀ u, (s.pc u).pipe ≠ some i) :
    s.broadcastHasSpace i = s := by
  have hpc : (fun u => (s.pc u).wakeWriter i) = s.pc := by
    funext u
    exact StreamPc.wakeWriter_of_ne (hi u)
  rw [broadcastHasSpace, hpc]

theorem writerClose_idle {i : Nat} (hi : ∀ u, (s.pc u).pipe ≠ some i) :
    s.writerClose i = s.setPipe i { s.pipe i with writerClosed := true } := by
  unfold writerClose
  split
  · rename_i hw
    have hsame : { s.pipe i with writerClosed := true } = s.pipe i := by rw [← hw]
    rw [hsame, setPipe, Function.update_eq_self]
  · exact broadcastHasData_idle hi

theorem readerClose_idle {i : Nat} (hi : ∀ u, (s.pc u).pipe ≠ some i)
    (hr : (s.pipe i).readerClosed = false) : s.readerClose i =
      { s.setPipe i { s.pipe i with readerClosed := true, writerClosed := true } with
        freedPipe := Function.update s.freedPipe i (s.freedPipe i + 1) } := by
  unfold readerClose
  rw [hr, if_neg (by simp)]
  simp only
  rw [broadcastHasSpace_idle (by exact hi), writerClose_idle (by exact hi)]
  simp only [setPipe, Function.update_self, Function.update_idem]

/-- A direction without a pipe, or that is shut down already. -/
theorem setDirection_shut (hd : s.Direction x y q h) (hh : h.receive q = none) :
    s.setDirection x y q .shut = s := by
  by_cases hshut : h = .shut
  · subst hshut
    exact setDirection_self hd
  · have hq : q = none := (if_neg hshut).symm.trans hh
    subst hq
    have hsend := hd.send
    have hreceive := hd.receive
    simp only [Half.send, Half.receive, ite_self] at hsend hreceive
    exact setDirection_self ⟨hsend, hreceive, by simp, by simp, by simp, by simp, by simp⟩

theorem access_live {k : Nat} (hlive : s.freedSCB k = 0) : s.access k = s := if_pos hlive

/-- `ShutDown` of the reader's side. -/
theorem Direction.shutRead (hd : s.Direction x y q h) (hlive : s.freedSCB x = 0) :
    s.shutRead y x = s.setDirection x y q .shut := by
  have hreceive := hd.receive
  unfold Streams.shutRead
  cases hr : (s.scb y).receive with
  | none => exact (setDirection_shut hd (hreceive.symm.trans hr)).symm
  | some i =>
    rw [hr, Half.receive] at hreceive
    split at hreceive
    · exact absurd hreceive (by simp)
    rename_i hopen
    subst hreceive
    have hclosed : (s.pipe i).readerClosed = false := by
      simpa [Half.readerClosed, hopen] using hd.readerClosed i rfl
    have hfreed : s.freedPipe i = 0 := by
      simpa [Half.freed, hopen] using hd.freed i rfl
    simp only
    rw [readerClose_idle (hd.idle i rfl) hclosed, access_live (by exact hlive)]
    refine eq_of_ends (s := s) rfl rfl (fun j => ?_) (fun j => ?_) (fun j => ?_) <;>
      simp only [setDirection, modifySCB, setPipe, Function.update_apply, Option.some.injEq]
    · simp only [Half.send, Half.receive]
      by_cases hx : j = x
      · subst hx
        by_cases hy : j = y <;> simp [hy]
      · by_cases hy : j = y
        · subst hy
          simp [hx]
        · simp [hx, hy]
    · by_cases hj : i = j
      · subst hj
        simp [Half.readerClosed, Half.writerClosed]
      · rw [if_neg (Ne.symm hj), if_neg hj]
    · by_cases hj : i = j
      · subst hj
        simp [Half.freed, hfreed]
      · rw [if_neg (Ne.symm hj), if_neg hj]

/-- And of the writer's. -/
theorem Direction.shutWrite (hd : s.Direction x y q h) :
    s.shutWrite x = s.setDirection x y q h.shutWrite := by
  have hsend := hd.send
  unfold Streams.shutWrite
  cases hr : (s.scb x).send with
  | none =>
    rw [hr, Half.send] at hsend
    split at hsend
    · subst hsend
      have hreceive := hd.receive
      simp only [Half.receive, ite_self] at hreceive
      refine (setDirection_self ⟨?_, ?_, by simp, by simp, by simp, by simp, by simp⟩).symm
      · simp [hr, Half.send]
      · simp [hreceive, Half.receive]
    · rename_i hclosed
      have hh : h.shutWrite = h := by cases h <;> simp_all [Half.shutWrite]
      rw [hh, setDirection_self hd]
  | some i =>
    rw [hr, Half.send] at hsend
    split at hsend
    · rename_i hopen
      subst hsend hopen
      have hclosed : (s.pipe i).readerClosed = false := hd.readerClosed i rfl
      simp only
      rw [writerClose_idle (hd.idle i rfl)]
      refine eq_of_ends (s := s) rfl rfl (fun j => ?_) (fun j => ?_) (fun j => ?_) <;>
        simp only [setDirection, modifySCB, setPipe, Function.update_apply, Option.some.injEq]
      · have hreceive : (s.scb y).receive = some i := hd.receive
        simp only [Half.send, Half.receive, Half.shutWrite]
        by_cases hx : j = x
        · subst hx
          by_cases hy : j = y
          · subst hy
            simp [hreceive]
          · simp [hy]
        · by_cases hy : j = y
          · subst hy
            simp [hx, ← hreceive]
          · simp [hx, hy]
      · by_cases hj : i = j
        · subst hj
          simp [Half.readerClosed, Half.writerClosed, Half.shutWrite, hclosed]
        · rw [if_neg (Ne.symm hj), if_neg hj]
      · by_cases hj : i = j
        · subst hj
          have hfreed : s.freedPipe i = 0 := hd.freed i rfl
          simp [Half.freed, Half.shutWrite, hfreed]
        · rw [if_neg hj]
    · exact absurd hsend (by simp)

/-! ## Connected sockets -/

/-- The SCBs `a` and `b` are peers, neither is closed, and nobody sleeps in their pipes: `q` from
`a` to `b`, and `q'` back. -/
structure Connected (s : Streams) (a b : Nat) (q q' : Option Nat) (h h' : Half) : Prop where
  ne : a ≠ b
  type_a : (s.scb a).type = .peer
  type_b : (s.scb b).type = .peer
  peer_a : (s.scb a).peer = some b
  peer_b : (s.scb b).peer = some a
  live_a : s.freedSCB a = 0
  live_b : s.freedSCB b = 0
  there : s.Direction a b q h
  back : s.Direction b a q' h'
  apart : ∀ i, q = some i → q' ≠ some i

variable {a b k p : Nat} {fd : Int} {how : ShutdownMode}

theorem Connected.symm (hc : s.Connected a b q q' h h') : s.Connected b a q' q h' h :=
  ⟨hc.ne.symm, hc.type_b, hc.type_a, hc.peer_b, hc.peer_a, hc.live_b, hc.live_a, hc.back, hc.there,
    fun i hi' hi => hc.apart i hi hi'⟩

/-- Both directions are set. -/
def setBoth (s : Streams) (a b : Nat) (q q' : Option Nat) (h h' : Half) : Streams :=
  (s.setDirection b a q' h').setDirection a b q h

theorem Connected.setBoth_symm (hc : s.Connected a b q q' h h') (k k' : Half) :
    s.setBoth a b q q' k k' = s.setBoth b a q' q k' k :=
  setDirection_comm (fun i hi' hi => hc.apart i hi hi') hc.ne.symm

theorem Connected.setBoth_set (hc : s.Connected a b q q' h h') (k k' l l' : Half) :
    (s.setBoth a b q q' k k').setBoth a b q q' l l' = s.setBoth a b q q' l l' := by
  have hback : ((s.setDirection b a q' k').setDirection a b q k).setDirection b a q' l' =
      (s.setDirection b a q' l').setDirection a b q k := by
    rw [setDirection_comm hc.apart hc.ne, setDirection_set]
  unfold setBoth
  rw [hback, setDirection_set]

theorem Connected.setBoth (hc : s.Connected a b q q' h h') (k k' : Half) :
    (s.setBoth a b q q' k k').Connected a b q q' k k' := by
  have hqq : ∀ i, q' = some i → q ≠ some i := fun i hi' hi => hc.apart i hi hi'
  exact ⟨hc.ne, hc.type_a, hc.type_b, hc.peer_a, hc.peer_b, hc.live_a, hc.live_b,
    (hc.there.set_other hc.ne.symm hc.apart).set, hc.back.set.set_other hc.ne hqq, hc.apart⟩

theorem denoted_eq {t : FileTables} (hk : denoted t p fd = some k) :
    ((t.getFCB p fd).bind fun f => (t.FT f).stream) = some (.socket k) := by
  unfold denoted at hk
  obtain ⟨st, hst, hk⟩ := Option.bind_eq_some_iff.mp hk
  cases st with
  | socket j => exact Option.some.inj hk ▸ hst
  | _ => exact absurd hk (by simp [Stream.socket?])

theorem Connected.shutDown_a (hc : s.Connected a b q q' h h')
    (ha : denoted s.toFileTables p fd = some a) : s.sysShutDown p fd how =
      s.setBoth a b q q' (h.after True how) (h'.after False how) := by
  have hread : (if how = .read ∨ how = .both then s.shutRead a b else s) =
      s.setDirection b a q' (h'.after False how) := by
    by_cases hr : how = .read ∨ how = .both
    · simp only [Half.after, if_false, if_pos hr]
      exact hc.back.shutRead hc.live_b
    · simp only [Half.after, if_false, if_neg hr]
      exact (setDirection_self hc.back).symm
  have hthere : (s.setDirection b a q' (h'.after False how)).Direction a b q h :=
    hc.there.set_other hc.ne.symm hc.apart
  unfold sysShutDown
  rw [denoted_eq ha]
  simp only [access_live hc.live_a, hc.type_a, hc.peer_a, hread]
  by_cases hw : how = .write ∨ how = .both
  · simp only [Half.after, if_true, if_pos hw]
    exact hthere.shutWrite
  · simp only [Half.after, if_true, if_neg hw]
    exact (setDirection_self hthere).symm

/-- **`ShutDown` sets the two directions, and does nothing else.** -/
theorem Connected.shutDown_eq (hc : s.Connected a b q q' h h')
    (hk : denoted s.toFileTables p fd = some k) (hab : k = a ∨ k = b) :
    s.sysShutDown p fd how = s.setBoth a b q q' (h.after (k = a) how) (h'.after (k = b) how) := by
  rcases hab with rfl | rfl
  · simp only [hc.shutDown_a hk, hc.ne]
  · rw [hc.symm.shutDown_a hk, ← hc.setBoth_symm]
    simp only [hc.ne.symm]

theorem Connected.shutDown (hc : s.Connected a b q q' h h')
    (hk : denoted s.toFileTables p fd = some k) (hab : k = a ∨ k = b) :
    (s.sysShutDown p fd how).Connected a b q q' (h.after (k = a) how) (h'.after (k = b) how) :=
  hc.shutDown_eq hk hab ▸ hc.setBoth _ _

/-! ## Several `ShutDown`s -/

variable {k' p' : Nat} {fd' : Int} {how' : ShutdownMode}

theorem denoted_shutDown : denoted (s.sysShutDown p fd how).toFileTables p' fd' =
    denoted s.toFileTables p' fd' := by
  rw [(quiet_sysShutDown s p fd how).files]

/-- One `ShutDown` after another. -/
theorem Connected.shutDown_shutDown (hc : s.Connected a b q q' h h')
    (hk : denoted s.toFileTables p fd = some k) (hab : k = a ∨ k = b)
    (hk' : denoted s.toFileTables p' fd' = some k') (hab' : k' = a ∨ k' = b) :
    (s.sysShutDown p fd how).sysShutDown p' fd' how' = s.setBoth a b q q'
      ((h.after (k = a) how).after (k' = a) how') ((h'.after (k = b) how).after (k' = b) how') := by
  rw [(hc.shutDown hk hab).shutDown_eq (denoted_shutDown.trans hk') hab', hc.shutDown_eq hk hab,
    hc.setBoth_set]

theorem Connected.shutDown_self (hc : s.Connected a b q q' h h')
    (hk : denoted s.toFileTables p fd = some k) (hab : k = a ∨ k = b) :
    (s.sysShutDown p fd how).sysShutDown p fd how = s.sysShutDown p fd how := by
  rw [hc.shutDown_shutDown hk hab hk hab, hc.shutDown_eq hk hab, Half.after_self, Half.after_self]

theorem Connected.shutDown_both (hc : s.Connected a b q q' h h')
    (hk : denoted s.toFileTables p fd = some k) (hab : k = a ∨ k = b) :
    s.sysShutDown p fd .both = (s.sysShutDown p fd .read).sysShutDown p fd .write := by
  rw [hc.shutDown_shutDown hk hab hk hab, hc.shutDown_eq hk hab, Half.after_both, Half.after_both]

theorem Connected.shutDown_comm (hc : s.Connected a b q q' h h')
    (hk : denoted s.toFileTables p fd = some k) (hab : k = a ∨ k = b)
    (hk' : denoted s.toFileTables p' fd' = some k') (hab' : k' = a ∨ k' = b) :
    (s.sysShutDown p fd how).sysShutDown p' fd' how' =
      (s.sysShutDown p' fd' how').sysShutDown p fd how := by
  rw [hc.shutDown_shutDown hk hab hk' hab', hc.shutDown_shutDown hk' hab' hk hab,
    h.after_comm how how' (k = a) (k' = a), h'.after_comm how how' (k = b) (k' = b)]

end Streams

end TinyOS
