import TinyOS.Pipe.Basic
import TinyOS.Lib.System

/-!
# `Read` on a terminal (`kernel_dev.c`, `bios.c`)

A byte that a keyboard sends waits in a FIFO of the machine. `serial_read` takes what is there, byte
by byte, and sleeps only if nothing is there at all. Waking it takes three parties: the PIC daemon sees
that a terminal has a byte and raises `SERIAL_RX_READY`, the core that gets the interrupt runs
`serial_rx_handler`, and that broadcasts to the readers **of every terminal**, since it does not know
which one is meant. They share a flag `ready` for each terminal: a read that finds nothing clears it,
and the PIC looks only at terminals whose flag is down, and raises it with the interrupt.

Each access to what is shared is a step: each byte, each write of the flag, each stage of the PIC's
pass, each broadcast. `bios_serial_interrupt_core` is never called, so one core gets the interrupts.

The result here is that **no byte is lost, doubled or overtaken, and no `Read` is cut in two by another
one** (`terminal_read_fifo`). How long a reader sleeps is in `Stream/Interrupts.lean`.
-/

set_option autoImplicit false

namespace TinyOS

open Transition

/-- `SERIAL_TIMEOUT`, in milliseconds. -/
def serialTimeout : Nat := 300

/-- Where a thread stands in `serial_read`. -/
inductive SerialPc where
  | outside
  /-- At `kernel_lock`, or at its like in `kernel_wait`. -/
  | locking (devno size : Nat)
  /-- At the test `count<size`. -/
  | reading (devno size : Nat) (buf : List Byte)
  /-- In `io_device_read`, which has found no byte, at the flag `ready`. -/
  | refused (devno size : Nat) (buf : List Byte)
  /-- At `kernel_wait`. -/
  | waiting (devno size : Nat)
  /-- Among the sleepers of `rx_ready`. -/
  | asleep (devno size : Nat)
  deriving DecidableEq

namespace SerialPc

/-- It holds the kernel. -/
def inKernel : SerialPc → Bool
  | .reading _ _ _ | .refused _ _ _ | .waiting _ _ => true
  | .outside | .locking _ _ | .asleep _ _ => false

/-- The terminal it reads. -/
def devno? : SerialPc → Option Nat
  | .outside => none
  | .locking d _ | .reading d _ _ | .refused d _ _ | .waiting d _ | .asleep d _ => some d

/-- The bytes of the terminal `devno` that it has in its buffer. -/
def inHand (devno : Nat) : SerialPc → List Byte
  | .reading d _ buf | .refused d _ buf => if d = devno then buf else []
  | .outside | .locking _ _ | .waiting _ _ | .asleep _ _ => []

/-- `Cond_Broadcast(&rx_ready)`, for the terminal `devno`. -/
def broadcast (devno : Nat) : SerialPc → SerialPc
  | .asleep d size => if d = devno then .locking d size else .asleep d size
  | pc => pc

end SerialPc

/-- Where the PIC daemon stands in its loop. `readfds` are terminals. -/
inductive PicPc where
  | loop
  /-- In `select`. -/
  | selecting (readfds : Nat → Bool)
  /-- At the terminal `i` of the loop over the devices. -/
  | serving (readfds : Nat → Bool) (i : Nat)
  /-- At `raise_interrupt` there. -/
  | raising (readfds : Nat → Bool) (i : Nat)

structure SerialPorts (T : Type) where
  /-- What the keyboard has sent, and nobody has read. -/
  fifo : Nat → List Byte
  ready : Nat → Bool
  lastInt : Nat → Nat
  systemClock : Nat
  /-- `intpending[SERIAL_RX_READY]`, of the core that gets the interrupts. -/
  intpending : Bool
  /-- The `i` of `serial_rx_handler`, while that core runs it. -/
  handler : Option Nat
  pic : PicPc
  /-- Who holds the kernel. -/
  kernel : Option T
  pc : T → SerialPc

inductive SerialAction (T : Type) where
  /-- The keyboard sends a byte. -/
  | send (devno : Nat) (value : Byte)
  /-- The PIC prepares its set; `connected` is what `check_terminal` answers. -/
  | prepare (connected : Nat → Bool)
  /-- `select` returns, after so many milliseconds. -/
  | select (elapsed : Nat)
  /-- The next step of the PIC at a device. -/
  | serve
  /-- The core takes the interrupt. -/
  | dispatch
  /-- The next step of `serial_rx_handler`. -/
  | handle
  | read (t : T) (devno size : Nat)
  /-- The next step of a thread in `serial_read`. -/
  | next (t : T)

def PicPc.isServing : PicPc → Bool
  | .serving _ _ => true
  | _ => false

/-- A step of the core that handles the interrupts. -/
def SerialAction.isCore {T : Type} : SerialAction T → Bool
  | .dispatch | .handle => true
  | _ => false

/-- A step of the PIC. -/
def SerialAction.isPic {T : Type} : SerialAction T → Bool
  | .prepare _ | .select _ | .serve => true
  | _ => false

/-- The beginning of a pass of the PIC. -/
def SerialAction.isPass {T : Type} : SerialAction T → Bool
  | .prepare _ => true
  | _ => false

/-- If it is the beginning of a pass, the terminal is found connected. -/
def SerialAction.connects {T : Type} (devno : Nat) : SerialAction T → Bool
  | .prepare connected => connected devno
  | _ => true

namespace SerialPorts

variable {T : Type} [DecidableEq T]

def goto (s : SerialPorts T) (t : T) (pc : SerialPc) : SerialPorts T :=
  { s with pc := Function.update s.pc t pc }

/-- `preempt_on`, and the return of `serial_read`. -/
def leave (s : SerialPorts T) (t : T) (pc : SerialPc) : SerialPorts T :=
  { s with kernel := none }.goto t pc

/-- The one step of the PIC at the terminal `i`. -/
def serve (ports : Nat) (s : SerialPorts T) (readfds : Nat → Bool) (i : Nat) : SerialPorts T :=
  if i < ports then
    if readfds i ∨ serialTimeout < s.systemClock - s.lastInt i then
      { s with
        ready := Function.update s.ready i true
        lastInt := Function.update s.lastInt i s.systemClock
        pic := .raising readfds i }
    else { s with pic := .serving readfds (i + 1) }
  else { s with pic := .loop }

/-- The step of a thread in `serial_read`. -/
def next (s : SerialPorts T) (t : T) : Option (SerialPorts T) :=
  match s.pc t with
  | .outside | .asleep _ _ => none
  | .locking devno size =>
    if s.kernel = none then some ({ s with kernel := some t }.goto t (.reading devno size []))
    else none
  | .reading devno size buf =>
    if buf.length < size then
      match s.fifo devno with
      | [] => some (s.goto t (.refused devno size buf))
      | value :: rest =>
        some ({ s with fifo := Function.update s.fifo devno rest }.goto t
          (.reading devno size (buf ++ [value])))
    else some (s.leave t .outside)
  | .refused devno size buf =>
    let s := { s with ready := Function.update s.ready devno false }
    if buf = [] then some (s.goto t (.waiting devno size)) else some (s.leave t .outside)
  | .waiting devno size => some (s.leave t (.asleep devno size))

def perform (ports : Nat) (s : SerialPorts T) : SerialAction T → Option (SerialPorts T)
  | .send devno value =>
    some { s with fifo := Function.update s.fifo devno (s.fifo devno ++ [value]) }
  | .prepare connected =>
    match s.pic with
    | .loop => some { s with pic := .selecting fun d => connected d && !s.ready d }
    | _ => none
  | .select elapsed =>
    match s.pic with
    | .selecting readfds =>
      some { s with
        systemClock := s.systemClock + elapsed
        pic := .serving (fun d => readfds d && !(s.fifo d).isEmpty) 0 }
    | _ => none
  | .serve =>
    match s.pic with
    | .serving readfds i => some (s.serve ports readfds i)
    | .raising readfds i => some { s with intpending := true, pic := .serving readfds (i + 1) }
    | _ => none
  | .dispatch =>
    if s.handler = none ∧ s.intpending then some { s with intpending := false, handler := some 0 }
    else none
  | .handle =>
    match s.handler with
    | none => none
    | some i =>
      if i < ports then
        some { s with handler := some (i + 1), pc := fun t => (s.pc t).broadcast i }
      else some { s with handler := none }
  | .read t devno size =>
    if devno < ports ∧ s.pc t = .outside then some (s.goto t (.locking devno size)) else none
  | .next t => s.next t

end SerialPorts

/-- The machine is booted: `io_device_init` has asked each terminal whether it is ready. -/
def serialSys {T : Type} [DecidableEq T] (ports : Nat) :
    Sys (SerialPorts T) (SerialAction T) where
  init s := ∃ ready systemClock, s =
    { fifo := fun _ => [], ready := ready, lastInt := fun _ => systemClock,
      systemClock := systemClock, intpending := false, handler := none, pic := .loop,
      kernel := none, pc := fun _ => .outside }
  step := SerialPorts.perform ports

/-! ## What has happened -/

/-- A `Read` that has returned. -/
structure SerialRead (T : Type) where
  thread : T
  size : Nat
  buf : List Byte

structure SerialHistory (T : Type) where
  sent : Nat → List Byte
  returned : Nat → List (SerialRead T)
  /-- The clock, when the thread last fell asleep. -/
  sleptAt : T → Nat
  /-- `rx_ready` was broadcast between the thread's last `io_device_read` and its sleep. -/
  missed : T → Bool

namespace SerialHistory

variable {T : Type} [DecidableEq T]

def addRead (h : SerialHistory T) (devno : Nat) (r : SerialRead T) : SerialHistory T :=
  { h with returned := Function.update h.returned devno (h.returned devno ++ [r]) }

/-- What the next step of a thread adds. -/
def noteNext (s : SerialPorts T) (t : T) (h : SerialHistory T) : SerialHistory T :=
  match s.pc t with
  | .reading devno size buf =>
    if buf.length < size then h else h.addRead devno ⟨t, size, buf⟩
  | .refused devno size buf =>
    if buf = [] then { h with missed := Function.update h.missed t false }
    else h.addRead devno ⟨t, size, buf⟩
  | .waiting _ _ => { h with sleptAt := Function.update h.sleptAt t s.systemClock }
  | .outside | .locking _ _ | .asleep _ _ => h

def note (s : SerialPorts T) (a : SerialAction T) (_ : SerialPorts T) (h : SerialHistory T) :
    SerialHistory T :=
  match a with
  | .send devno value =>
    { h with sent := Function.update h.sent devno (h.sent devno ++ [value]) }
  | .handle =>
    { h with missed := fun t => h.missed t ||
        match s.pc t with
        | .waiting d _ => decide (s.handler = some d)
        | _ => false }
  | .next t => noteNext s t h
  | _ => h

end SerialHistory

def serialHistorySys {T : Type} [DecidableEq T] (ports : Nat) :
    Sys (SerialPorts T × SerialHistory T) (SerialAction T) :=
  (serialSys ports).record
    { sent := fun _ => [], returned := fun _ => [], sleptAt := fun _ => 0, missed := fun _ => false }
    SerialHistory.note

/-! ## Steps -/

namespace SerialPc

theorem inHand_of_not_inKernel {pc : SerialPc} (h : pc.inKernel = false) (devno : Nat) :
    pc.inHand devno = [] := by
  cases pc <;> first | rfl | exact Bool.noConfusion h

theorem broadcast_cases (pc : SerialPc) (i : Nat) :
    pc.broadcast i = pc ∨ ∃ size, pc = .asleep i size ∧ pc.broadcast i = .locking i size := by
  cases pc with
  | asleep d size =>
    by_cases hd : d = i
    · exact .inr ⟨size, by rw [hd], by simp [broadcast, hd]⟩
    · exact .inl (if_neg hd)
  | _ => exact .inl rfl

@[simp] theorem broadcast_inKernel (pc : SerialPc) (i : Nat) :
    (pc.broadcast i).inKernel = pc.inKernel := by
  obtain h | ⟨size, hpc, h⟩ := pc.broadcast_cases i
  · rw [h]
  · rw [h, hpc]
    rfl

@[simp] theorem broadcast_inHand (pc : SerialPc) (i devno : Nat) :
    (pc.broadcast i).inHand devno = pc.inHand devno := by
  obtain h | ⟨size, hpc, h⟩ := pc.broadcast_cases i
  · rw [h]
  · rw [h, hpc]
    rfl

/-- A `Read` takes no more than it was asked for. -/
def Sized : SerialPc → Prop
  | .reading _ size buf => buf.length ≤ size
  | .refused _ size buf => buf.length < size
  | .outside | .locking _ _ | .waiting _ _ | .asleep _ _ => True

theorem Sized.broadcast {pc : SerialPc} (h : pc.Sized) (i : Nat) : (pc.broadcast i).Sized := by
  obtain he | ⟨size, -, he⟩ := pc.broadcast_cases i
  · rw [he]
    exact h
  · rw [he]
    trivial

end SerialPc

namespace SerialPorts

variable {T : Type} [DecidableEq T] {ports : Nat} {s s' : SerialPorts T}

@[simp] theorem goto_pc (s : SerialPorts T) (t u : T) (pc : SerialPc) :
    (s.goto t pc).pc u = if u = t then pc else s.pc u := Function.update_apply ..

@[simp] theorem goto_kernel (s : SerialPorts T) (t : T) (pc : SerialPc) :
    (s.goto t pc).kernel = s.kernel := rfl

@[simp] theorem goto_fifo (s : SerialPorts T) (t : T) (pc : SerialPc) :
    (s.goto t pc).fifo = s.fifo := rfl

@[simp] theorem leave_pc (s : SerialPorts T) (t u : T) (pc : SerialPc) :
    (s.leave t pc).pc u = if u = t then pc else s.pc u := Function.update_apply ..

@[simp] theorem leave_kernel (s : SerialPorts T) (t : T) (pc : SerialPc) :
    (s.leave t pc).kernel = none := rfl

@[simp] theorem leave_fifo (s : SerialPorts T) (t : T) (pc : SerialPc) :
    (s.leave t pc).fifo = s.fifo := rfl

def Locked (s : SerialPorts T) : Prop := ∀ t, (s.pc t).inKernel = true ↔ s.kernel = some t

/-- The bytes that a `Read` has taken and not yet returned. -/
def inHand (s : SerialPorts T) (devno : Nat) : List Byte :=
  match s.kernel with
  | none => []
  | some t => (s.pc t).inHand devno

/-- **What a thread's step does**, by where it stands. -/
theorem next_cases {t : T} (h : s.next t = some s') :
    (∃ d size, s.pc t = .locking d size ∧ s.kernel = none ∧
      s' = { s with kernel := some t }.goto t (.reading d size [])) ∨
    (∃ d size buf, s.pc t = .reading d size buf ∧ buf.length < size ∧ s.fifo d = [] ∧
      s' = s.goto t (.refused d size buf)) ∨
    (∃ d size buf value rest, s.pc t = .reading d size buf ∧ buf.length < size ∧
      s.fifo d = value :: rest ∧
      s' = { s with fifo := Function.update s.fifo d rest }.goto t
        (.reading d size (buf ++ [value]))) ∨
    (∃ d size buf, s.pc t = .reading d size buf ∧ ¬ buf.length < size ∧
      s' = s.leave t .outside) ∨
    (∃ d size, s.pc t = .refused d size [] ∧
      s' = { s with ready := Function.update s.ready d false }.goto t (.waiting d size)) ∨
    (∃ d size buf, s.pc t = .refused d size buf ∧ buf ≠ [] ∧
      s' = { s with ready := Function.update s.ready d false }.leave t .outside) ∨
    (∃ d size, s.pc t = .waiting d size ∧ s' = s.leave t (.asleep d size)) := by
  unfold next at h
  cases hpc : s.pc t with
  | outside | asleep d size => simp [hpc] at h
  | locking d size =>
    simp only [hpc, Option.ite_none_right_eq_some, Option.some.injEq] at h
    exact .inl ⟨d, size, rfl, h.1, h.2.symm⟩
  | reading d size buf =>
    simp only [hpc] at h
    split at h
    · rename_i hlt
      cases hfifo : s.fifo d with
      | nil =>
        simp only [hfifo, Option.some.injEq] at h
        exact .inr (.inl ⟨d, size, buf, rfl, hlt, hfifo, h.symm⟩)
      | cons value rest =>
        simp only [hfifo, Option.some.injEq] at h
        exact .inr (.inr (.inl ⟨d, size, buf, value, rest, rfl, hlt, hfifo, h.symm⟩))
    · rename_i hge
      cases h
      exact .inr (.inr (.inr (.inl ⟨d, size, buf, rfl, hge, rfl⟩)))
  | refused d size buf =>
    simp only [hpc] at h
    split at h
    · rename_i hbuf
      cases h
      exact .inr (.inr (.inr (.inr (.inl ⟨d, size, by rw [hbuf], rfl⟩))))
    · rename_i hbuf
      cases h
      exact .inr (.inr (.inr (.inr (.inr (.inl ⟨d, size, buf, rfl, hbuf, rfl⟩)))))
  | waiting d size =>
    simp only [hpc, Option.some.injEq] at h
    exact .inr (.inr (.inr (.inr (.inr (.inr ⟨d, size, rfl, h.symm⟩)))))

/-- An interrupt is on its way to the sleepers of the terminal `devno`. -/
def Due (s : SerialPorts T) (devno : Nat) : Prop :=
  s.intpending = true ∨ (∃ i ≤ devno, s.handler = some i) ∨ ∃ readfds i, s.pic = .raising readfds i

/-- The PIC moves, to `raise_interrupt` or away from it: then an interrupt is on its way. Or it does
something else, and the terminals stay as they are. -/
structure PicMove (s s' : SerialPorts T) : Prop where
  pc : s'.pc = s.pc
  kernel : s'.kernel = s.kernel
  fifo : s'.fifo = s.fifo
  handler : s'.handler = s.handler
  due : (∀ d, s'.Due d) ∨ s'.ready = s.ready ∧ s'.lastInt = s.lastInt ∧
    s'.intpending = s.intpending ∧ ∀ readfds i, s.pic ≠ .raising readfds i

omit [DecidableEq T] in
/-- The PIC raises the interrupt of a terminal, passes it over, or is through. -/
theorem serve_cases (ports : Nat) (s : SerialPorts T) (readfds : Nat → Bool) (i : Nat) :
    (i < ports ∧ (readfds i ∨ serialTimeout < s.systemClock - s.lastInt i) ∧
      s.serve ports readfds i =
        { s with
          ready := Function.update s.ready i true
          lastInt := Function.update s.lastInt i s.systemClock
          pic := .raising readfds i }) ∨
    (i < ports ∧ ¬ (readfds i ∨ serialTimeout < s.systemClock - s.lastInt i) ∧
      s.serve ports readfds i = { s with pic := .serving readfds (i + 1) }) ∨
    (¬ i < ports ∧ s.serve ports readfds i = { s with pic := .loop }) := by
  unfold serve
  by_cases hi : i < ports
  · by_cases hnow : readfds i ∨ serialTimeout < s.systemClock - s.lastInt i
    · exact .inl ⟨hi, hnow, by rw [if_pos hi, if_pos hnow]⟩
    · exact .inr (.inl ⟨hi, hnow, by rw [if_pos hi, if_neg hnow]⟩)
  · exact .inr (.inr ⟨hi, if_neg hi⟩)

theorem pic_move {a : SerialAction T} (ha : a.isPic = true) (hstep : s.perform ports a = some s') :
    PicMove s s' := by
  cases a with
  | prepare connected =>
    simp only [perform] at hstep
    split at hstep
    · rename_i hpic
      cases hstep
      exact ⟨rfl, rfl, rfl, rfl, .inr ⟨rfl, rfl, rfl, by simp [hpic]⟩⟩
    · exact absurd hstep (by simp)
  | select elapsed =>
    simp only [perform] at hstep
    split at hstep
    · rename_i hpic
      cases hstep
      exact ⟨rfl, rfl, rfl, rfl, .inr ⟨rfl, rfl, rfl, by simp [hpic]⟩⟩
    · exact absurd hstep (by simp)
  | serve =>
    simp only [perform] at hstep
    split at hstep
    · rename_i hpic
      cases hstep
      obtain ⟨-, -, he⟩ | ⟨-, -, he⟩ | ⟨-, he⟩ := s.serve_cases ports _ _
      all_goals rw [he]
      · exact ⟨rfl, rfl, rfl, rfl, .inl fun _ => .inr (.inr ⟨_, _, rfl⟩)⟩
      · exact ⟨rfl, rfl, rfl, rfl, .inr ⟨rfl, rfl, rfl, by simp [hpic]⟩⟩
      · exact ⟨rfl, rfl, rfl, rfl, .inr ⟨rfl, rfl, rfl, by simp [hpic]⟩⟩
    · cases hstep
      exact ⟨rfl, rfl, rfl, rfl, .inl fun _ => .inl rfl⟩
    · exact absurd hstep (by simp)
  | _ => exact absurd ha (by simp [SerialAction.isPic])

omit [DecidableEq T] in
/-- An interrupt stays on its way, whatever the PIC does. -/
theorem PicMove.keep (hm : PicMove s s') {d : Nat} (hdue : s.Due d) : s'.Due d := by
  rcases hm.due with hdue' | ⟨-, -, hint, hnot⟩
  · exact hdue' d
  · rcases hdue with hpending | hcore | ⟨readfds, i, hpic⟩
    · exact .inl (hint.trans hpending)
    · rw [← hm.handler] at hcore
      exact .inr (.inl hcore)
    · exact absurd hpic (hnot readfds i)

/-! ## Order -/

section
variable {h h' : SerialHistory T}

/-- What the `Read`s have returned, one after the other. -/
def taken (h : SerialHistory T) (devno : Nat) : List Byte :=
  ((h.returned devno).map (·.buf)).flatten

omit [DecidableEq T] in
theorem Locked.inHand_eq (hs : s.Locked) {t : T} (hkernel : s.kernel = some t ∨ s.kernel = none)
    (devno : Nat) : s.inHand devno = (s.pc t).inHand devno := by
  unfold inHand
  rcases hkernel with hk | hk
  · rw [hk]
  · rw [hk, SerialPc.inHand_of_not_inKernel]
    refine Bool.eq_false_iff.mpr fun ht => ?_
    have hheld := (hs t).mp ht
    rw [hk] at hheld
    exact absurd hheld (by simp)

omit [DecidableEq T] in
theorem addRead_returned (h : SerialHistory T) (devno d : Nat) (r : SerialRead T) :
    (h.addRead devno r).returned d =
      if d = devno then h.returned d ++ [r] else h.returned d := by
  by_cases hd : d = devno
  · subst hd
    simp [SerialHistory.addRead]
  · simp [SerialHistory.addRead, hd]

omit [DecidableEq T] in
theorem taken_addRead (h : SerialHistory T) (devno d : Nat) (r : SerialRead T) :
    taken (h.addRead devno r) d = taken h d ++ if d = devno then r.buf else [] := by
  unfold taken
  rw [addRead_returned]
  split <;> simp

/-- **No byte is lost, doubled or overtaken.** -/
structure Ordered (s : SerialPorts T) (h : SerialHistory T) : Prop where
  locked : s.Locked
  sized : ∀ t, (s.pc t).Sized
  bytes : ∀ d, taken h d ++ s.inHand d ++ s.fifo d = h.sent d
  returned : ∀ d, ∀ r ∈ h.returned d, r.buf.length ≤ r.size ∧ (r.buf = [] → r.size = 0)

/-- The thread `t` moves to `pc`, and holds the kernel while it is there. -/
theorem Ordered.turn (hs : Ordered s h) {t : T} (pc : SerialPc)
    (hkernel : s.kernel = some t ∨ s.kernel = none)
    (hpc : ∀ u, s'.pc u = if u = t then pc else s.pc u)
    (hkernel' : s'.kernel = if pc.inKernel then some t else none) (hsized : pc.Sized)
    (hbytes : ∀ d, taken h' d ++ pc.inHand d ++ s'.fifo d = h'.sent d)
    (hreturned : ∀ d, ∀ r ∈ h'.returned d, r.buf.length ≤ r.size ∧ (r.buf = [] → r.size = 0)) :
    Ordered s' h' := by
  have hself : s'.pc t = pc := by rw [hpc, if_pos rfl]
  have hothers : ∀ u, u ≠ t → (s.pc u).inKernel = false := by
    intro u hu
    have hnot : ¬ s.kernel = some u := by
      rcases hkernel with hk | hk <;> simp [hk, Ne.symm hu]
    simpa using mt (hs.locked u).mp hnot
  have hlocked : s'.Locked := by
    intro u
    rw [hpc, hkernel']
    split
    · rename_i hu
      subst hu
      split <;> simp_all
    · rename_i hu
      rw [hothers u hu]
      split <;> simp [Ne.symm hu]
  refine ⟨hlocked, fun u => ?_, fun d => ?_, hreturned⟩
  · rw [hpc]
    split
    · exact hsized
    · exact hs.sized u
  · rw [hlocked.inHand_eq (t := t) (by rw [hkernel']; split <;> simp) d, hself]
    exact hbytes d

/-- The thread `t` returns what it has in hand. -/
theorem Ordered.finish (hs : Ordered s h) {t : T} {d size : Nat} {buf : List Byte}
    (hkernel : s.kernel = some t)
    (hhand : ∀ e, (s.pc t).inHand e = if d = e then buf else [])
    (hpc : ∀ u, s'.pc u = if u = t then .outside else s.pc u) (hkernel' : s'.kernel = none)
    (hfifo : s'.fifo = s.fifo) (hread : buf.length ≤ size ∧ (buf = [] → size = 0)) :
    Ordered s' (h.addRead d ⟨t, size, buf⟩) := by
  refine hs.turn .outside (.inl hkernel) hpc hkernel' trivial (fun e => ?_) (fun e r hr => ?_)
  · have hnow := hs.bytes e
    rw [hs.locked.inHand_eq (.inl hkernel), hhand] at hnow
    rw [taken_addRead, hfifo]
    by_cases he : e = d
    · subst he
      simpa [SerialPc.inHand, SerialHistory.addRead] using hnow
    · simpa [SerialPc.inHand, SerialHistory.addRead, he, Ne.symm he] using hnow
  · rw [addRead_returned] at hr
    split at hr
    · rw [List.mem_append, List.mem_singleton] at hr
      rcases hr with hr | rfl
      · exact hs.returned e r hr
      · exact hread
    · exact hs.returned e r hr

/-- **One step of a `Read`.** -/
theorem Ordered.next (hs : Ordered s h) {t : T} (hstep : s.next t = some s') :
    Ordered s' (SerialHistory.noteNext s t h) := by
  have hsized := hs.sized t
  have hheld : (s.pc t).inKernel = true → s.kernel = some t := (hs.locked t).mp
  have hbytes : s.kernel = some t ∨ s.kernel = none → ∀ d,
      taken h d ++ (s.pc t).inHand d ++ s.fifo d = h.sent d := by
    intro hkernel d
    rw [← hs.locked.inHand_eq hkernel d]
    exact hs.bytes d
  obtain ⟨d, size, hpc, hfree, rfl⟩ | ⟨d, size, buf, hpc, hlt, hfifo, rfl⟩ |
    ⟨d, size, buf, value, rest, hpc, hlt, hfifo, rfl⟩ | ⟨d, size, buf, hpc, hge, rfl⟩ |
    ⟨d, size, hpc, rfl⟩ | ⟨d, size, buf, hpc, hbuf, rfl⟩ | ⟨d, size, hpc, rfl⟩ := next_cases hstep
  all_goals
    simp only [SerialHistory.noteNext, hpc]
    simp only [hpc] at hsized hheld hbytes
  · have hnow := hbytes (.inr hfree)
    refine hs.turn (.reading d size []) (.inr hfree) (goto_pc _ _ · _) rfl (Nat.zero_le _)
      (fun e => ?_) hs.returned
    simpa [SerialPc.inHand] using hnow e
  · rw [if_pos hlt]
    have hin := hheld rfl
    refine hs.turn (.refused d size buf) (.inl hin) (goto_pc _ _ · _) hin hlt
      (fun e => ?_) hs.returned
    simpa [SerialPc.inHand] using hbytes (.inl hin) e
  · rw [if_pos hlt]
    have hin := hheld rfl
    have hle : (buf ++ [value]).length ≤ size := by
      rw [List.length_append]
      exact hlt
    refine hs.turn (.reading d size (buf ++ [value])) (.inl hin) (goto_pc _ _ · _) hin hle
      (fun e => ?_) hs.returned
    have hnow := hbytes (.inl hin) e
    by_cases he : d = e
    · subst he
      simpa [SerialPc.inHand, hfifo] using hnow
    · simpa [SerialPc.inHand, he, Function.update_of_ne (Ne.symm he)] using hnow
  · rw [if_neg hge]
    refine hs.finish (hheld rfl) (fun e => by rw [hpc]; rfl) (goto_pc _ _ · _) rfl rfl ?_
    have hle : buf.length ≤ size := hsized
    refine ⟨hle, fun hnil => ?_⟩
    subst hnil
    simpa using hge
  · rw [if_pos trivial]
    have hin := hheld rfl
    refine hs.turn (.waiting d size) (.inl hin) (goto_pc _ _ · _) hin trivial
      (fun e => ?_) hs.returned
    simpa [SerialPc.inHand, taken] using hbytes (.inl hin) e
  · rw [if_neg hbuf]
    refine hs.finish (hheld rfl) (fun e => by rw [hpc]; rfl) (goto_pc _ _ · _) rfl rfl ?_
    have hle : buf.length < size := hsized
    exact ⟨hle.le, fun hnil => absurd hnil hbuf⟩
  · have hin := hheld rfl
    refine hs.turn (.asleep d size) (.inl hin) (leave_pc _ _ · _) rfl trivial
      (fun e => ?_) hs.returned
    simpa [SerialPc.inHand, taken] using hbytes (.inl hin) e

omit [DecidableEq T] in
/-- What does not move a reader keeps the order, if the FIFOs take what is sent. -/
theorem Ordered.frame (hs : Ordered s h) (hlocked : s'.Locked) (hkernel : s'.kernel = s.kernel)
    (hsized : ∀ t, (s'.pc t).Sized) (hhand : ∀ t d, (s'.pc t).inHand d = (s.pc t).inHand d)
    (hreturned : h'.returned = h.returned)
    (hfifo : ∀ d, ∃ new, s'.fifo d = s.fifo d ++ new ∧ h'.sent d = h.sent d ++ new) :
    Ordered s' h' where
  locked := hlocked
  sized := hsized
  bytes d := by
    obtain ⟨new, hnew, hsent⟩ := hfifo d
    have hsame : s'.inHand d = s.inHand d := by
      unfold inHand
      rw [hkernel]
      cases s.kernel with
      | none => rfl
      | some t => exact hhand t d
    rw [hsame, hnew, hsent, ← hs.bytes d, taken, taken, hreturned]
    simp only [List.append_assoc]
  returned d r hr := by
    rw [hreturned] at hr
    exact hs.returned d r hr

omit [DecidableEq T] in
/-- A step that concerns neither the readers nor the FIFOs. -/
theorem Ordered.still (hs : Ordered s h) (hpc : s'.pc = s.pc) (hkernel : s'.kernel = s.kernel)
    (hfifo : s'.fifo = s.fifo) : Ordered s' h := by
  refine hs.frame (fun t => ?_) hkernel (fun t => ?_) (fun t d => ?_) rfl fun d => ⟨[], ?_, ?_⟩
  · rw [hpc, hkernel]
    exact hs.locked t
  · rw [hpc]
    exact hs.sized t
  · rw [hpc]
  · rw [hfifo, List.append_nil]
  · rw [List.append_nil]

theorem Ordered.step (hs : Ordered s h) {a : SerialAction T} (hstep : s.perform ports a = some s') :
    Ordered s' (SerialHistory.note s a s' h) := by
  cases a with
  | send devno value =>
    cases hstep
    refine hs.frame hs.locked rfl hs.sized (fun _ _ => rfl) rfl fun d => ?_
    by_cases hd : d = devno
    · subst hd
      exact ⟨[value], by simp, by simp [SerialHistory.note]⟩
    · exact ⟨[], by simp [hd], by simp [SerialHistory.note, hd]⟩
  | prepare _ | select _ | serve =>
    have hm := pic_move rfl hstep
    exact hs.still hm.pc hm.kernel hm.fifo
  | dispatch =>
    obtain ⟨-, hstep⟩ := Option.ite_none_right_eq_some.mp hstep
    cases hstep
    exact hs.still rfl rfl rfl
  | handle =>
    simp only [perform] at hstep
    split at hstep
    · exact absurd hstep (by simp)
    · rename_i i _
      split at hstep
      · cases hstep
        refine hs.frame (fun t => ?_) rfl (fun t => (hs.sized t).broadcast i) (fun t d => ?_) rfl
          fun d => ⟨[], by simp, by simp [SerialHistory.note]⟩
        · rw [SerialPc.broadcast_inKernel]
          exact hs.locked t
        · rw [SerialPc.broadcast_inHand]
      · cases hstep
        exact hs.frame hs.locked rfl hs.sized (fun _ _ => rfl) rfl
          fun d => ⟨[], by simp, by simp [SerialHistory.note]⟩
  | read t devno size =>
    obtain ⟨⟨-, hpc⟩, hstep⟩ := Option.ite_none_right_eq_some.mp hstep
    cases hstep
    refine hs.frame (fun u => ?_) rfl (fun u => ?_) (fun u d => ?_) rfl
      fun d => ⟨[], by simp, by simp [SerialHistory.note]⟩
    · rw [goto_pc, goto_kernel, ← hs.locked u]
      split
      · rename_i hu
        rw [hu, hpc]
        rfl
      · rfl
    · rw [goto_pc]
      split
      · trivial
      · exact hs.sized u
    · rw [goto_pc]
      split
      · rename_i hu
        rw [hu, hpc]
        rfl
      · rfl
  | next t => exact hs.next hstep

end

theorem ordered_inductive :
    (serialHistorySys ports).Inductive
      fun x : SerialPorts T × SerialHistory T => Ordered x.1 x.2 where
  init := by
    rintro ⟨s, h⟩ ⟨⟨ready, systemClock, rfl⟩, rfl⟩
    exact ⟨fun t => by simp [SerialPc.inKernel], fun t => trivial, fun d => rfl,
      fun d r hr => absurd hr (by simp)⟩
  step := by
    rintro ⟨s, h⟩ a x hs - hstep
    obtain ⟨s', hs', rfl⟩ := Option.map_eq_some_iff.mp hstep
    exact hs.step hs'

end SerialPorts

variable {T : Type} [DecidableEq T]

/-- **What a keyboard sends, the `Read`s return**, in its order: each byte is returned, in the hand
of the one thread that is in the kernel, or still in the FIFO. A `Read` returns no more than it was
asked for, and it returns something unless it was asked for nothing. -/
theorem terminal_read_fifo (ports : Nat) {x : SerialPorts T × SerialHistory T}
    (hr : (serialHistorySys ports).Reach x) (devno : Nat) :
    ((x.2.returned devno).map (·.buf)).flatten ++ x.1.inHand devno ++ x.1.fifo devno =
        x.2.sent devno ∧
      (∀ r ∈ x.2.returned devno, r.buf.length ≤ r.size ∧ (r.buf = [] → r.size = 0)) ∧
      ∀ t, (x.1.pc t).inHand devno ≠ [] → x.1.kernel = some t := by
  have hs := SerialPorts.ordered_inductive.reachIf hr
  refine ⟨hs.bytes devno, hs.returned devno, fun t ht => (hs.locked t).mp ?_⟩
  by_contra hout
  exact ht (SerialPc.inHand_of_not_inKernel (by simpa using hout) devno)

/-- One terminal, with its flag down, and one thread. -/
def oneKeyboard : SerialPorts Unit where
  fifo _ := []
  ready _ := false
  lastInt _ := 0
  systemClock := 0
  intpending := false
  handler := none
  pic := .loop
  kernel := none
  pc _ := .outside

/-- A whole pass of the PIC over it, with an interrupt. -/
def keyboardPass (elapsed : Nat) : List (SerialAction Unit) :=
  [.prepare fun _ => true, .select elapsed, .serve, .serve, .serve]

/-- The thread falls asleep, two bytes wake it, and it returns both. -/
theorem terminal_read_fifo_run : ∃ x : SerialPorts Unit × SerialHistory Unit,
    ((serialHistorySys 1).Reach x ∧ (x.2.returned 0).map (·.buf) = [[65, 66]]) ∧
      ((x.2.returned 0).map (·.buf)).flatten ++ x.1.inHand 0 ++ x.1.fifo 0 = x.2.sent 0 ∧
      (∀ r ∈ x.2.returned 0, r.buf.length ≤ r.size ∧ (r.buf = [] → r.size = 0)) ∧
      ∀ t, (x.1.pc t).inHand 0 ≠ [] → x.1.kernel = some t := by
  obtain ⟨x, hr, hp⟩ := Sys.reachIf_of_exec (M := serialHistorySys 1) (C := fun _ _ => True)
    (fun _ _ => true) (oneKeyboard, _)
    ([.read () 0 2, .next (), .next (), .next (), .next (), .send 0 65, .send 0 66] ++
      keyboardPass 1 ++ [.dispatch, .handle, .next (), .next (), .next (), .next ()])
    (fun x => decide ((x.2.returned 0).map (·.buf) = [[65, 66]])) (fun _ _ _ => trivial)
    ⟨⟨_, 0, rfl⟩, rfl⟩ (by decide)
  exact ⟨x, ⟨hr, of_decide_eq_true hp⟩, terminal_read_fifo 1 hr 0⟩

end TinyOS
