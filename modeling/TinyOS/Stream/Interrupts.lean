import TinyOS.Stream.Keyboard

/-!
# The interrupts of the keyboards (`bios.c`, `kernel_dev.c`)

A reader that sleeps is woken by an interrupt, and **an interrupt that is handled just before the
reader sleeps is lost**: the flag of the terminal stays up, and the PIC does not look at the terminal.
That is what `SERIAL_TIMEOUT` is for.

So there are two bounds. A reader that no interrupt has missed (`SerialHistory.missed`) finds the flag
down, and then a byte is seen within a pass (`terminal_read_prompt`). Any other reader waits for the
clock: once `SERIAL_TIMEOUT` has run out, the PIC raises an interrupt within a pass, whatever the flag
says (`terminal_read_wakes`). Both rest on one invariant, `Timed`, on what the PIC does while no
interrupt is on its way (`quiet_step`), and on what becomes of one that is (`Due.step`).
-/

set_option autoImplicit false

namespace TinyOS

open Transition

namespace SerialPorts

variable {T : Type} [DecidableEq T] {ports : Nat} {s s' : SerialPorts T}

/-! ## Time -/

section
variable {h h' : SerialHistory T}

/-- **Who sleeps is seen**: by an interrupt on its way, by the PIC, or at least by the clock. -/
structure Timed (ports : Nat) (s : SerialPorts T) (h : SerialHistory T) : Prop where
  connected : ∀ t d, (s.pc t).devno? = some d → d < ports
  handler : ∀ i, s.handler = some i → i ≤ ports
  last : ∀ d, s.lastInt d ≤ s.systemClock
  slept : ∀ t d size, s.pc t = .asleep d size → s.Due d ∨ s.lastInt d ≤ h.sleptAt t
  shown : ∀ t d size, s.pc t = .waiting d size ∨ s.pc t = .asleep d size → h.missed t = false →
    s.Due d ∨ s.ready d = false

/-- The thread `t` moves to `pc`. -/
theorem Timed.turn (hs : Timed ports s h) {t : T} {pc : SerialPc} {f : Nat → List Byte}
    {r : Nat → Bool} {k : Option T} (hopen : ∀ d, pc.devno? = some d → d < ports)
    (hready : ∀ d, s.ready d = false → r d = false)
    (hothers : ∀ u, u ≠ t → h'.sleptAt u = h.sleptAt u ∧ h'.missed u = h.missed u)
    (hasleep : ∀ d size, pc = .asleep d size → s.lastInt d ≤ h'.sleptAt t)
    (hshown : ∀ d size, pc = .waiting d size ∨ pc = .asleep d size → h'.missed t = false →
      s.Due d ∨ r d = false) :
    Timed ports ({ s with fifo := f, ready := r, kernel := k }.goto t pc) h' where
  connected u d hd := by
    rw [goto_pc] at hd
    split at hd
    · exact hopen d hd
    · exact hs.connected u d hd
  handler := hs.handler
  last := hs.last
  slept u d size hu := by
    rw [goto_pc] at hu
    split at hu
    · rename_i hut
      rw [hut]
      exact .inr (hasleep d size hu)
    · rename_i hut
      rw [(hothers u hut).1]
      exact hs.slept u d size hu
  shown u d size hu hmissed := by
    rw [goto_pc] at hu
    split at hu
    · rename_i hut
      exact hshown d size hu (hut ▸ hmissed)
    · rename_i hut
      rw [(hothers u hut).2] at hmissed
      exact (hs.shown u d size hu hmissed).imp_right (hready d)

theorem cleared {ready : Nat → Bool} {e : Nat} (d : Nat) (he : ready e = false) :
    Function.update ready d false e = false := by
  rw [Function.update_apply]
  split
  · rfl
  · exact he

theorem Timed.next (hs : Timed ports s h) {t : T} (hstep : s.next t = some s') :
    Timed ports s' (SerialHistory.noteNext s t h) := by
  have hopen := hs.connected t
  obtain ⟨d, size, hpc, hfree, rfl⟩ | ⟨d, size, buf, hpc, hlt, hfifo, rfl⟩ |
    ⟨d, size, buf, value, rest, hpc, hlt, hfifo, rfl⟩ | ⟨d, size, buf, hpc, hge, rfl⟩ |
    ⟨d, size, hpc, rfl⟩ | ⟨d, size, buf, hpc, hbuf, rfl⟩ | ⟨d, size, hpc, rfl⟩ := next_cases hstep
  all_goals
    simp only [SerialHistory.noteNext, hpc]
    rw [hpc] at hopen
  · exact hs.turn hopen (fun _ => id) (fun _ _ => ⟨rfl, rfl⟩) (by simp) (by simp)
  · rw [if_pos hlt]
    exact hs.turn hopen (fun _ => id) (fun _ _ => ⟨rfl, rfl⟩) (by simp) (by simp)
  · rw [if_pos hlt]
    exact hs.turn hopen (fun _ => id) (fun _ _ => ⟨rfl, rfl⟩) (by simp) (by simp)
  · rw [if_neg hge]
    exact hs.turn (by simp [SerialPc.devno?]) (fun _ => id) (fun _ _ => ⟨rfl, rfl⟩) (by simp)
      (by simp)
  · rw [if_pos trivial]
    refine hs.turn hopen (fun e => cleared d) (fun u hu => ⟨rfl, Function.update_of_ne hu ..⟩)
      (by simp) (fun e size' he _ => .inr ?_)
    obtain ⟨rfl, -⟩ : d = e ∧ size = size' := by simpa using he
    exact Function.update_self ..
  · rw [if_neg hbuf]
    exact hs.turn (by simp [SerialPc.devno?]) (fun e => cleared d) (fun _ _ => ⟨rfl, rfl⟩) (by simp)
      (by simp)
  · refine hs.turn hopen (fun _ => id) (fun u hu => ⟨Function.update_of_ne hu .., rfl⟩)
      (fun e size' _ => ?_) (fun e size' he hmissed => ?_)
    · have hnow : Function.update h.sleptAt t s.systemClock t = s.systemClock :=
        Function.update_self ..
      exact (hs.last e).trans_eq hnow.symm
    · obtain ⟨rfl, rfl⟩ : d = e ∧ size = size' := by simpa using he
      exact hs.shown t d size (.inl hpc) hmissed

omit [DecidableEq T] in
theorem Timed.pic (hs : Timed ports s h) (hm : PicMove s s')
    (hlast : ∀ d, s'.lastInt d ≤ s'.systemClock) : Timed ports s' h where
  connected t d hd := hs.connected t d (by rwa [hm.pc] at hd)
  handler i hi := hs.handler i (by rwa [hm.handler] at hi)
  last := hlast
  slept t d size ht := by
    rw [hm.pc] at ht
    rcases hm.due with hdue | ⟨-, hint, -⟩
    · exact .inl (hdue d)
    · rw [hint]
      exact (hs.slept t d size ht).imp_left hm.keep
  shown t d size ht hmissed := by
    rw [hm.pc] at ht
    rcases hm.due with hdue | ⟨hready, -⟩
    · exact .inl (hdue d)
    · rw [hready]
      exact (hs.shown t d size ht hmissed).imp_left hm.keep

omit [DecidableEq T] in
/-- It stays on its way while `serial_rx_handler` is not at its terminal. -/
theorem Due.of_core {d i : Nat} (hdue : s.Due d) (hhandler : s.handler = some i)
    (hnext : i ≤ d → s'.handler = some (i + 1)) (hd : d ≠ i)
    (hint : s'.intpending = s.intpending) (hpic : s'.pic = s.pic) : s'.Due d := by
  rcases hdue with hpending | ⟨j, hj, hcore⟩ | hraising
  · exact .inl (hint.trans hpending)
  · obtain rfl : i = j := by
      rw [hhandler] at hcore
      exact Option.some.inj hcore
    exact .inr (.inl ⟨i + 1, by omega, hnext hj⟩)
  · rw [← hpic] at hraising
    exact .inr (.inr hraising)

omit [DecidableEq T] in
theorem Timed.serve (hs : Timed ports s h) {readfds : Nat → Bool} {i : Nat}
    (hm : PicMove s (s.serve ports readfds i)) : Timed ports (s.serve ports readfds i) h := by
  obtain ⟨-, -, he⟩ | ⟨-, -, he⟩ | ⟨-, he⟩ := s.serve_cases ports readfds i
  all_goals rw [he] at hm ⊢
  · refine hs.pic hm fun d => ?_
    by_cases hdi : d = i
    · simp [hdi]
    · simpa [Function.update_of_ne hdi] using hs.last d
  · exact hs.pic hm hs.last
  · exact hs.pic hm hs.last

theorem Timed.handle (hs : Timed ports s h) {i : Nat} (hhandler : s.handler = some i)
    (hi : i < ports) :
    Timed ports { s with handler := some (i + 1), pc := fun t => (s.pc t).broadcast i }
      (SerialHistory.note s .handle s' h) := by
  have hpc : ∀ t pc, (s.pc t).broadcast i = pc → (∀ size, pc ≠ .locking i size) → s.pc t = pc := by
    intro t pc ht hnot
    obtain he | ⟨size, -, he⟩ := (s.pc t).broadcast_cases i
    · exact he.symm.trans ht
    · exact absurd (ht.symm.trans he) (hnot size)
  have hdue : ∀ d, d ≠ i → s.Due d →
      Due { s with handler := some (i + 1), pc := fun t => (s.pc t).broadcast i } d :=
    fun d hd hdue => hdue.of_core hhandler (fun _ => rfl) hd rfl rfl
  have hne : ∀ t d size, (s.pc t).broadcast i = .asleep d size → d ≠ i := by
    rintro t d size ht rfl
    have := hpc t _ ht (by simp)
    simp [this, SerialPc.broadcast] at ht
  refine ⟨fun t d hd => ?_, fun j hj => ?_, hs.last, fun t d size ht => ?_,
    fun t d size ht hmissed => ?_⟩
  · obtain he | ⟨size, hold, he⟩ := (s.pc t).broadcast_cases i
    · exact hs.connected t d (by rwa [← he])
    · refine hs.connected t d ?_
      rw [hold]
      have : ((s.pc t).broadcast i).devno? = some d := hd
      rwa [he] at this
  · obtain rfl : i + 1 = j := Option.some.inj hj
    exact hi
  · have hold := hpc t _ ht (by simp)
    exact (hs.slept t d size hold).imp_left (hdue d (hne t d size ht))
  · simp only [SerialHistory.note, Bool.or_eq_false_iff] at hmissed
    rcases ht with ht | ht
    · have hold := hpc t _ ht (by simp)
      have hd : d ≠ i := by
        have := hmissed.2
        simp only [hold, decide_eq_false_iff_not, hhandler, Option.some.injEq] at this
        exact Ne.symm this
      exact (hs.shown t d size (.inl hold) hmissed.1).imp_left (hdue d hd)
    · have hold := hpc t _ ht (by simp)
      exact (hs.shown t d size (.inr hold) hmissed.1).imp_left (hdue d (hne t d size ht))

theorem Timed.step (hs : Timed ports s h) {a : SerialAction T}
    (hstep : s.perform ports a = some s') : Timed ports s' (SerialHistory.note s a s' h) := by
  cases a with
  | send devno value =>
    cases hstep
    exact ⟨hs.connected, hs.handler, hs.last, hs.slept, hs.shown⟩
  | prepare connected =>
    have hm := pic_move rfl hstep
    simp only [perform] at hstep
    split at hstep
    · cases hstep
      exact hs.pic hm hs.last
    · exact absurd hstep (by simp)
  | select elapsed =>
    have hm := pic_move rfl hstep
    simp only [perform] at hstep
    split at hstep
    · cases hstep
      exact hs.pic hm fun d => (hs.last d).trans (Nat.le_add_right _ _)
    · exact absurd hstep (by simp)
  | serve =>
    have hm := pic_move rfl hstep
    simp only [perform] at hstep
    split at hstep
    · cases hstep
      exact hs.serve hm
    · cases hstep
      exact hs.pic hm hs.last
    · exact absurd hstep (by simp)
  | dispatch =>
    obtain ⟨-, hstep⟩ := Option.ite_none_right_eq_some.mp hstep
    cases hstep
    have hdue : ∀ d, Due { s with intpending := false, handler := some 0 } d :=
      fun d => .inr (.inl ⟨0, Nat.zero_le d, rfl⟩)
    exact ⟨hs.connected, fun i hi => Option.some.inj hi ▸ Nat.zero_le ports, hs.last,
      fun _ d _ _ => .inl (hdue d), fun _ d _ _ _ => .inl (hdue d)⟩
  | handle =>
    simp only [perform] at hstep
    split at hstep
    · exact absurd hstep (by simp)
    · rename_i i hhandler
      split at hstep
      · rename_i hi
        cases hstep
        exact hs.handle hhandler hi
      · rename_i hi
        cases hstep
        have hdue : ∀ t d, (s.pc t).devno? = some d → s.Due d →
            Due { s with handler := none } d := by
          intro t d hd hdue
          have := hs.connected t d hd
          exact hdue.of_core hhandler (fun hle => absurd hle (by omega)) (by omega) rfl rfl
        refine ⟨hs.connected, fun j hj => absurd hj (by simp), hs.last,
          fun t d size ht => ?_, fun t d size ht hmissed => ?_⟩
        · exact (hs.slept t d size ht).imp_left (hdue t d (by rw [ht]; rfl))
        · simp only [SerialHistory.note, Bool.or_eq_false_iff] at hmissed
          refine (hs.shown t d size ht hmissed.1).imp_left (hdue t d ?_)
          rcases ht with ht | ht <;> rw [ht] <;> rfl
  | read t devno size =>
    obtain ⟨⟨hd, hpc⟩, hstep⟩ := Option.ite_none_right_eq_some.mp hstep
    cases hstep
    exact hs.turn (by simpa [SerialPc.devno?] using hd) (fun _ => id) (fun _ _ => ⟨rfl, rfl⟩)
      (by simp) (by simp)
  | next t => exact hs.next hstep

end

/-! ## Waking up -/

/-- A step of a thread is none of the PIC's or of the core's. -/
theorem next_frame {t : T} (h : s.next t = some s') :
    s'.pic = s.pic ∧ s'.handler = s.handler ∧ s'.intpending = s.intpending ∧
      (∀ u, u ≠ t → s'.pc u = s.pc u) ∧ ∀ d, s.ready d = false → s'.ready d = false := by
  have hmoved : ∀ pc : SerialPc, ∀ u, u ≠ t → Function.update s.pc t pc u = s.pc u :=
    fun pc u hu => Function.update_of_ne hu ..
  obtain ⟨d, size, hpc, hfree, rfl⟩ | ⟨d, size, buf, hpc, hlt, hfifo, rfl⟩ |
    ⟨d, size, buf, value, rest, hpc, hlt, hfifo, rfl⟩ | ⟨d, size, buf, hpc, hge, rfl⟩ |
    ⟨d, size, hpc, rfl⟩ | ⟨d, size, buf, hpc, hbuf, rfl⟩ | ⟨d, size, hpc, rfl⟩ := next_cases h
  · exact ⟨rfl, rfl, rfl, hmoved _, fun _ => id⟩
  · exact ⟨rfl, rfl, rfl, hmoved _, fun _ => id⟩
  · exact ⟨rfl, rfl, rfl, hmoved _, fun _ => id⟩
  · exact ⟨rfl, rfl, rfl, hmoved _, fun _ => id⟩
  · exact ⟨rfl, rfl, rfl, hmoved _, fun e => cleared d⟩
  · exact ⟨rfl, rfl, rfl, hmoved _, fun e => cleared d⟩
  · exact ⟨rfl, rfl, rfl, hmoved _, fun _ => id⟩

/-- Nor does it touch the clock, or what the PIC notes of it. -/
theorem next_time {t : T} (h : s.next t = some s') :
    s'.lastInt = s.lastInt ∧ s'.systemClock = s.systemClock := by
  obtain ⟨d, size, hpc, hfree, rfl⟩ | ⟨d, size, buf, hpc, hlt, hfifo, rfl⟩ |
    ⟨d, size, buf, value, rest, hpc, hlt, hfifo, rfl⟩ | ⟨d, size, buf, hpc, hge, rfl⟩ |
    ⟨d, size, hpc, rfl⟩ | ⟨d, size, buf, hpc, hbuf, rfl⟩ | ⟨d, size, hpc, rfl⟩ := next_cases h
  all_goals exact ⟨rfl, rfl⟩

/-- **Only the broadcast of its terminal** wakes a reader. -/
theorem asleep_step {t : T} {d size : Nat} (ht : s.pc t = .asleep d size) {a : SerialAction T}
    (hstep : s.perform ports a = some s') :
    s'.pc t = .asleep d size ∨ a = .handle ∧ s.handler = some d ∧ s'.pc t = .locking d size := by
  cases a with
  | send devno value =>
    cases hstep
    exact .inl ht
  | prepare _ | select _ | serve =>
    have hm := pic_move rfl hstep
    rw [hm.pc]
    exact .inl ht
  | dispatch =>
    obtain ⟨-, hstep⟩ := Option.ite_none_right_eq_some.mp hstep
    cases hstep
    exact .inl ht
  | handle =>
    simp only [perform] at hstep
    split at hstep
    · exact absurd hstep (by simp)
    · rename_i i hhandler
      split at hstep
      · cases hstep
        by_cases hd : d = i
        · subst hd
          exact .inr ⟨rfl, hhandler, by simp [ht, SerialPc.broadcast]⟩
        · exact .inl (by simp [ht, SerialPc.broadcast, hd])
      · cases hstep
        exact .inl ht
  | read u devno size' =>
    obtain ⟨⟨-, hpc⟩, hstep⟩ := Option.ite_none_right_eq_some.mp hstep
    cases hstep
    have hu : t ≠ u := by
      rintro rfl
      exact absurd (hpc.symm.trans ht) (by simp)
    exact .inl ((goto_pc ..).trans (by rw [if_neg hu, ht]))
  | next u =>
    have hu : t ≠ u := by
      rintro rfl
      simp [perform, next, ht] at hstep
    exact .inl (((next_frame hstep).2.2.2.1 t hu).trans ht)

/-- How many steps the core that handles an interrupt takes until it has reached `devno`. -/
def coreSteps (ports : Nat) (s : SerialPorts T) (devno : Nat) : Nat :=
  match s.handler with
  | none => devno + 1
  | some i => if i ≤ devno then devno - i else ports - i + (devno + 2)

omit [DecidableEq T] in
theorem coreSteps_le {d : Nat} (hd : d < ports) : s.coreSteps ports d ≤ ports + 1 := by
  unfold coreSteps
  split
  · omega
  · split <;> omega

omit [DecidableEq T] in
theorem coreSteps_congr (hhandler : s'.handler = s.handler) (d : Nat) :
    s'.coreSteps ports d = s.coreSteps ports d := by
  unfold coreSteps
  rw [hhandler]

/-- **An interrupt on its way arrives.** -/
theorem Due.step {d : Nat} (hd : d < ports) (hdue : s.Due d) {a : SerialAction T}
    (hstep : s.perform ports a = some s') :
    a = .handle ∧ s.handler = some d ∨
      s'.Due d ∧ s'.coreSteps ports d + (if a.isCore then 1 else 0) ≤ s.coreSteps ports d := by
  cases a with
  | send devno value =>
    cases hstep
    exact .inr ⟨hdue, le_rfl⟩
  | prepare _ | select _ | serve =>
    have hm := pic_move rfl hstep
    exact .inr ⟨hm.keep hdue, (coreSteps_congr hm.handler d).le⟩
  | dispatch =>
    obtain ⟨⟨hidle, -⟩, hstep⟩ := Option.ite_none_right_eq_some.mp hstep
    cases hstep
    refine .inr ⟨.inr (.inl ⟨0, Nat.zero_le d, rfl⟩), ?_⟩
    simp [coreSteps, hidle, SerialAction.isCore]
  | handle =>
    simp only [perform] at hstep
    split at hstep
    · exact absurd hstep (by simp)
    · rename_i i hhandler
      by_cases hi : d = i
      · exact .inl ⟨rfl, hi ▸ hhandler⟩
      · refine .inr ?_
        split at hstep
        · cases hstep
          refine ⟨hdue.of_core hhandler (fun _ => rfl) hi rfl rfl, ?_⟩
          simp only [coreSteps, hhandler, SerialAction.isCore, if_true]
          split <;> split <;> omega
        · cases hstep
          refine ⟨hdue.of_core hhandler (fun hle => absurd hle (by omega)) hi rfl rfl, ?_⟩
          simp only [coreSteps, hhandler, SerialAction.isCore, if_true]
          rw [if_neg (by omega)]
          omega
  | read t devno size =>
    obtain ⟨-, hstep⟩ := Option.ite_none_right_eq_some.mp hstep
    cases hstep
    exact .inr ⟨hdue, le_rfl⟩
  | next t =>
    obtain ⟨hpic, hhandler, hint, -, -⟩ := next_frame hstep
    refine .inr ⟨?_, (coreSteps_congr hhandler d).le⟩
    unfold Due
    rwa [hpic, hhandler, hint]

/-- It stays on its way, unless it wakes the sleeper. -/
theorem Due.stays {t : T} {d size : Nat} (hd : d < ports) (hdue : s.Due d)
    (ht : s.pc t = .asleep d size) {a : SerialAction T} (hstep : s.perform ports a = some s')
    (ht' : s'.pc t = .asleep d size) :
    s'.Due d ∧ s'.coreSteps ports d + (if a.isCore then 1 else 0) ≤ s.coreSteps ports d := by
  rcases hdue.step hd hstep with ⟨rfl, hhandler⟩ | hdue
  · simp [perform, hhandler, hd] at hstep
    simp [← hstep, ht, SerialPc.broadcast] at ht'
  · exact hdue

/-! ## What the PIC finds -/

/-- The interrupt for the terminal `devno` is overdue. -/
def TimedOut (s : SerialPorts T) (devno : Nat) : Prop :=
  s.lastInt devno + serialTimeout < s.systemClock

/-- **What the PIC does while no interrupt is on its way**: it begins a pass, comes back from `select`,
passes a terminal over for which it has no reason to raise one, or ends the pass. Nobody else touches
what it goes by, except that a flag may go down and the FIFOs change. -/
theorem quiet_step {d : Nat} {a : SerialAction T} (hdue : ¬ s.Due d) (hdue' : ¬ s'.Due d)
    (hstep : s.perform ports a = some s') :
    s'.lastInt = s.lastInt ∧ (s.ready d = false → s'.ready d = false) ∧
      ((a.isPass = false ∧ s'.pic = s.pic ∧ s'.systemClock = s.systemClock) ∨
      (∃ connected, a = .prepare connected ∧ s.pic = .loop ∧
        s'.pic = .selecting (fun e => connected e && !s.ready e) ∧ s'.systemClock = s.systemClock) ∨
      (∃ elapsed readfds, a = .select elapsed ∧ s.pic = .selecting readfds ∧
        s'.pic = .serving (fun e => readfds e && !(s.fifo e).isEmpty) 0 ∧
        s'.systemClock = s.systemClock + elapsed) ∨
      (∃ readfds i, a = .serve ∧ s.pic = .serving readfds i ∧ readfds i = false ∧ ¬ s.TimedOut i ∧
        s'.pic = .serving readfds (i + 1) ∧ s'.systemClock = s.systemClock) ∨
      ∃ readfds i, a = .serve ∧ s.pic = .serving readfds i ∧ ports ≤ i ∧ s'.pic = .loop ∧
        s'.systemClock = s.systemClock) := by
  cases a with
  | send devno value =>
    cases hstep
    exact ⟨rfl, id, .inl ⟨rfl, rfl, rfl⟩⟩
  | prepare connected =>
    simp only [perform] at hstep
    split at hstep
    · rename_i hpic
      cases hstep
      exact ⟨rfl, id, .inr (.inl ⟨connected, rfl, hpic, rfl, rfl⟩)⟩
    · exact absurd hstep (by simp)
  | select elapsed =>
    simp only [perform] at hstep
    split at hstep
    · rename_i readfds hpic
      cases hstep
      exact ⟨rfl, id, .inr (.inr (.inl ⟨elapsed, readfds, rfl, hpic, rfl, rfl⟩))⟩
    · exact absurd hstep (by simp)
  | serve =>
    simp only [perform] at hstep
    split at hstep
    · rename_i readfds i hpic
      cases hstep
      obtain ⟨-, -, he⟩ | ⟨-, hrest, he⟩ | ⟨hend, he⟩ := s.serve_cases ports readfds i
      all_goals rw [he] at hdue' ⊢
      · exact absurd (.inr (.inr ⟨_, _, rfl⟩)) hdue'
      · obtain ⟨hunseen, hearly⟩ := not_or.mp hrest
        refine ⟨rfl, id, .inr (.inr (.inr (.inl ⟨readfds, i, rfl, hpic, by simpa using hunseen,
          fun hlate => hearly ?_, rfl, rfl⟩)))⟩
        unfold TimedOut at hlate
        omega
      · exact ⟨rfl, id, .inr (.inr (.inr (.inr ⟨readfds, i, rfl, hpic, not_lt.mp hend, rfl, rfl⟩)))⟩
    · rename_i readfds i hpic
      exact absurd (.inr (.inr ⟨readfds, i, hpic⟩)) hdue
    · exact absurd hstep (by simp)
  | dispatch =>
    obtain ⟨⟨-, hpending⟩, -⟩ := Option.ite_none_right_eq_some.mp hstep
    exact absurd (.inl hpending) hdue
  | handle =>
    simp only [perform] at hstep
    split at hstep
    · exact absurd hstep (by simp)
    · split at hstep
      all_goals
        cases hstep
        exact ⟨rfl, id, .inl ⟨rfl, rfl, rfl⟩⟩
  | read u devno size =>
    obtain ⟨-, hstep⟩ := Option.ite_none_right_eq_some.mp hstep
    cases hstep
    exact ⟨rfl, id, .inl ⟨rfl, rfl, rfl⟩⟩
  | next u =>
    obtain ⟨hpic, -, -, -, hkeep⟩ := next_frame hstep
    obtain ⟨hlast, hclock⟩ := next_time hstep
    exact ⟨hlast, hkeep d, .inl ⟨rfl, hpic, hclock⟩⟩

/-- The pass of the PIC that is going on is going to find the terminal `devno`. -/
def Sought (s : SerialPorts T) (devno : Nat) : Prop :=
  match s.pic with
  | .selecting readfds => readfds devno = true
  | .serving readfds i => readfds devno = true ∧ i ≤ devno
  | .loop | .raising _ _ => False

/-- The reader `t` sleeps though there are bytes, and the PIC needs to begin at most `r` more passes to
raise its interrupt. -/
structure Shown (t : T) (devno size : Nat) (r : Nat) (s : SerialPorts T) : Prop where
  asleep : s.pc t = .asleep devno size
  fifo : s.fifo devno ≠ []
  due : s.Due devno ∨ s.ready devno = false ∧ (1 ≤ r ∨ s.Sought devno)

/-- The interrupt of the reader is on its way, it is awake, or others have read the bytes. -/
def Settled (t : T) (devno size : Nat) (s : SerialPorts T) : Prop :=
  s.Due devno ∨ s.pc t ≠ .asleep devno size ∨ s.fifo devno = []

theorem Shown.step {t : T} {d size r : Nat} (hd : d < ports) (hs : Shown t d size r s)
    {a : SerialAction T} (hc : a.connects d = true)
    (hstep : s.perform ports a = some s') :
    Settled t d size s' ∨
      ∃ r', Shown t d size r' s' ∧ r' + (if a.isPass then 1 else 0) ≤ r := by
  by_cases hsettled : Settled t d size s'
  · exact .inl hsettled
  · right
    obtain ⟨hdue', hasleep', hfifo'⟩ := not_or.mp hsettled |>.imp_right not_or.mp
    have hasleep' := not_not.mp hasleep'
    have hdue : ¬ s.Due d := fun hdue => hdue' (hdue.stays hd hs.asleep hstep hasleep').1
    obtain ⟨hready, hsought⟩ := hs.due.resolve_left hdue
    obtain ⟨-, hkeep, hmove⟩ := quiet_step hdue hdue' hstep
    have hready' := hkeep hready
    obtain ⟨hpass, hpic, -⟩ | ⟨connected, rfl, hpic, hpic', -⟩ |
      ⟨elapsed, readfds, rfl, hpic, hpic', -⟩ | ⟨readfds, i, rfl, hpic, hunseen, -, hpic', -⟩ |
      ⟨readfds, i, rfl, hpic, hend, hpic', -⟩ := hmove
    · refine ⟨r, ⟨hasleep', hfifo', .inr ⟨hready', hsought.imp_right fun h => ?_⟩⟩, by simp [hpass]⟩
      unfold Sought
      rwa [hpic]
    · -- It is in the set of this pass.
      have hone : 1 ≤ r := hsought.resolve_right (by simp [Sought, hpic])
      have hconnected : connected d = true := hc
      refine ⟨r - 1, ⟨hasleep', hfifo', .inr ⟨hready', .inr ?_⟩⟩, ?_⟩
      · simp [Sought, hpic', hconnected, hready]
      · simp only [SerialAction.isPass, if_true]
        omega
    · refine ⟨r, ⟨hasleep', hfifo', .inr ⟨hready', hsought.imp_right fun h => ?_⟩⟩, le_rfl⟩
      simp only [Sought, hpic] at h
      simpa [Sought, hpic', h] using hs.fifo
    · refine ⟨r, ⟨hasleep', hfifo', .inr ⟨hready', hsought.imp_right fun h => ?_⟩⟩, le_rfl⟩
      simp only [Sought, hpic] at h
      have hne : i ≠ d := by
        rintro rfl
        exact absurd h.1 (by simp [hunseen])
      simp only [Sought, hpic']
      exact ⟨h.1, by omega⟩
    · refine ⟨r, ⟨hasleep', hfifo', .inr ⟨hready', hsought.imp_right fun h => ?_⟩⟩, le_rfl⟩
      simp only [Sought, hpic] at h
      omega

/-- The pass of the PIC that is going on has not come to the terminal `devno`. -/
def Ahead (s : SerialPorts T) (devno : Nat) : Prop :=
  match s.pic with
  | .selecting _ => True
  | .serving _ i => i ≤ devno
  | .loop | .raising _ _ => False

/-- The reader `t` sleeps, and the clock is going to raise its interrupt before the PIC has begun `r`
more passes. -/
structure Overdue (t : T) (devno size : Nat) (r : Nat) (s : SerialPorts T) : Prop where
  asleep : s.pc t = .asleep devno size
  due : s.Due devno ∨ s.TimedOut devno ∧ (1 ≤ r ∨ s.Ahead devno)

/-- **Whoever sleeps when the clock has run out is reached by the next pass**, and by that pass already
that has not come to its terminal. -/
theorem Overdue.step {t : T} {d size r : Nat} (hd : d < ports) (hs : Overdue t d size r s)
    {a : SerialAction T} (hstep : s.perform ports a = some s') :
    (s'.pc t = .asleep d size → s'.Due d) ∨
      ∃ r', Overdue t d size r' s' ∧ r' + (if a.isPass then 1 else 0) ≤ r := by
  by_cases hevent : s'.pc t = .asleep d size → s'.Due d
  · exact .inl hevent
  · right
    obtain ⟨hasleep', hdue'⟩ := Classical.not_imp.mp hevent
    have hdue : ¬ s.Due d := fun hdue => hdue' (hdue.stays hd hs.asleep hstep hasleep').1
    obtain ⟨hlate, hahead⟩ := hs.due.resolve_left hdue
    obtain ⟨hlast, -, hmove⟩ := quiet_step hdue hdue' hstep
    have hkeep : s.systemClock ≤ s'.systemClock → s'.TimedOut d := by
      intro hclock
      unfold TimedOut at hlate ⊢
      rw [hlast]
      omega
    obtain ⟨hpass, hpic, hclock⟩ | ⟨connected, rfl, hpic, hpic', hclock⟩ |
      ⟨elapsed, readfds, rfl, hpic, hpic', hclock⟩ |
      ⟨readfds, i, rfl, hpic, -, hearly, hpic', hclock⟩ |
      ⟨readfds, i, rfl, hpic, hend, hpic', hclock⟩ := hmove
    all_goals have hlate' := hkeep (by omega)
    · refine ⟨r, ⟨hasleep', .inr ⟨hlate', hahead.imp_right fun h => ?_⟩⟩, by simp [hpass]⟩
      unfold Ahead
      rwa [hpic]
    · have hone : 1 ≤ r := hahead.resolve_right (by simp [Ahead, hpic])
      refine ⟨r - 1, ⟨hasleep', .inr ⟨hlate', .inr (by simp [Ahead, hpic'])⟩⟩, ?_⟩
      simp only [SerialAction.isPass, if_true]
      omega
    · exact ⟨r, ⟨hasleep', .inr ⟨hlate', .inr (by simp [Ahead, hpic'])⟩⟩, le_rfl⟩
    · refine ⟨r, ⟨hasleep', .inr ⟨hlate', hahead.imp_right fun h => ?_⟩⟩, le_rfl⟩
      simp only [Ahead, hpic] at h
      have hne : i ≠ d := by
        rintro rfl
        exact hearly hlate
      simp only [Ahead, hpic']
      omega
    · refine ⟨r, ⟨hasleep', .inr ⟨hlate', hahead.imp_right fun h => ?_⟩⟩, le_rfl⟩
      simp only [Ahead, hpic] at h
      omega

theorem timed_inductive : (serialHistorySys ports).Inductive
    fun x : SerialPorts T × SerialHistory T => Timed ports x.1 x.2 where
  init := by
    rintro ⟨s, h⟩ ⟨⟨ready, systemClock, rfl⟩, rfl⟩
    refine ⟨fun t d hd => ?_, fun i hi => ?_, fun d => le_rfl, fun t d size ht => ?_,
      fun t d size ht => ?_⟩
    · exact absurd hd (by simp [SerialPc.devno?])
    · exact absurd hi (by simp)
    · exact absurd ht (by simp)
    · exact absurd ht (by simp)
  step := by
    rintro ⟨s, h⟩ a x hs - hstep
    obtain ⟨s', hs', rfl⟩ := Option.map_eq_some_iff.mp hstep
    exact hs.step hs'

/-- An interrupt on its way wakes a sleeper. -/
theorem Due.wakes {t : T} {d size : Nat} (hd : d < ports) (hdue : s.Due d)
    (ht : s.pc t = .asleep d size) {as : List (SerialAction T)}
    (hrun : (serialSys ports).RunIf (fun _ _ => True) s as s')
    (hlong : ports + 1 < as.countP SerialAction.isCore) :
    ∃ pre a post m m', as = pre ++ a :: post ∧
      pre.countP SerialAction.isCore ≤ ports + 1 ∧ (serialSys ports).Run s pre m ∧
      (serialSys ports).step m a = some m' ∧ m'.pc t = .locking d size := by
  refine hrun.responds (E := fun _ _ m' => m'.pc t = .locking d size)
    (P := fun r m => m.pc t = .asleep d size ∧ m.Due d ∧ m.coreSteps ports d ≤ r)
    (fun r m a m' hm _ hstep => ?_) ⟨ht, hdue, coreSteps_le hd⟩ hlong
  obtain ⟨hasleep, hdue, hle⟩ := hm
  rcases asleep_step hasleep hstep with hasleep' | ⟨-, -, hwoken⟩
  · obtain ⟨hdue', hless⟩ := hdue.stays hd hasleep hstep hasleep'
    exact .inr ⟨_, ⟨hasleep', hdue', le_rfl⟩, hless.trans hle⟩
  · exact .inl hwoken

end SerialPorts

variable {T : Type} [DecidableEq T]

/-- **No reader sleeps through `SERIAL_TIMEOUT`**: if a reader fell asleep longer ago than that, then
before the PIC begins its second pass the reader is awake, or an interrupt is on its way to it. From
there the core that handles the interrupts takes at most `ports + 1` steps to wake it. -/
theorem terminal_read_wakes (ports : Nat) {x : SerialPorts T × SerialHistory T}
    (hr : (serialHistorySys ports).Reach x) {t : T} {devno size : Nat}
    (ht : x.1.pc t = .asleep devno size)
    (hlate : x.2.sleptAt t + serialTimeout < x.1.systemClock) {s' : SerialPorts T}
    {as : List (SerialAction T)} (hrun : (serialSys ports).RunIf (fun _ _ => True) x.1 as s')
    (hlong : 1 < as.countP SerialAction.isPass) :
    ∃ pre a post m m', as = pre ++ a :: post ∧
      pre.countP SerialAction.isPass ≤ 1 ∧ (serialSys ports).Run x.1 pre m ∧
      (serialSys ports).step m a = some m' ∧
      (m'.pc t = .asleep devno size → m'.Due devno ∧
        (ports + 1 < post.countP SerialAction.isCore →
          ∃ pre' b post' n n', post = pre' ++ b :: post' ∧
            pre'.countP SerialAction.isCore ≤ ports + 1 ∧ (serialSys ports).Run m' pre' n ∧
            (serialSys ports).step n b = some n' ∧ n'.pc t = .locking devno size)) := by
  have hs := SerialPorts.timed_inductive.reachIf hr
  have hd : devno < ports := hs.connected t devno (by rw [ht]; rfl)
  have hoverdue : SerialPorts.Overdue t devno size 1 x.1 := by
    refine ⟨ht, (hs.slept t devno size ht).imp_right fun hslept => ⟨?_, .inl le_rfl⟩⟩
    unfold SerialPorts.TimedOut
    omega
  obtain ⟨pre, a, post, m, m', rfl, hpre, hbefore, hstep, hevent⟩ := hrun.responds
    (E := fun _ _ m' => m'.pc t = .asleep devno size → m'.Due devno)
    (P := SerialPorts.Overdue t devno size) (fun r m a m' hm _ hstep => hm.step hd hstep)
    hoverdue hlong
  refine ⟨pre, a, post, m, m', rfl, hpre, hbefore, hstep, fun hasleep => ⟨hevent hasleep, ?_⟩⟩
  rw [List.append_cons] at hrun
  exact (hevent hasleep).wakes hd hasleep (hrun.rest (hbefore.append (.single hstep)))

/-- The interrupt comes before the sleep, the flag stays up, and the clock runs out while the PIC is in
`select`. -/
theorem terminal_read_wakes_run : ∃ (x : SerialPorts Unit × SerialHistory Unit)
    (s' : SerialPorts Unit) (as : List (SerialAction Unit)),
    ((serialHistorySys 1).Reach x ∧ x.2.missed () = true ∧ x.1.ready 0 = true ∧ ¬ x.1.Due 0 ∧
      (serialSys 1).RunIf (fun _ _ => True) x.1 as s') ∧
      ∃ pre a post m m', as = pre ++ a :: post ∧
        pre.countP SerialAction.isPass ≤ 1 ∧ (serialSys 1).Run x.1 pre m ∧
        (serialSys 1).step m a = some m' ∧
        (m'.pc () = .asleep 0 2 → m'.Due 0 ∧
          (1 + 1 < post.countP SerialAction.isCore →
            ∃ pre' b post' n n', post = pre' ++ b :: post' ∧
              pre'.countP SerialAction.isCore ≤ 1 + 1 ∧ (serialSys 1).Run m' pre' n ∧
              (serialSys 1).step n b = some n' ∧ n'.pc () = .locking 0 2)) := by
  let pass : List (SerialAction Unit) := [.prepare fun _ => true, .select 1, .serve, .serve]
  let as := [.serve, .serve, .serve, .dispatch, .handle, .handle] ++ pass ++ pass
  obtain ⟨x, hr, hp⟩ := Sys.reachIf_of_exec (M := serialHistorySys 1) (C := fun _ _ => True)
    (fun _ _ => true) (oneKeyboard, _)
    ([.read () 0 2, .next (), .next (), .next (), .send 0 65] ++ keyboardPass 1 ++
      [.dispatch, .handle, .handle, .next (), .prepare fun _ => true, .select 301])
    (fun x => decide (x.1.pc () = .asleep 0 2) &&
      decide (x.2.sleptAt () + serialTimeout < x.1.systemClock) &&
      decide (x.2.missed () = true ∧ x.1.ready 0 = true) &&
      decide (x.1.intpending = false ∧ x.1.handler = none) && x.1.pic.isServing &&
      ((serialSys 1).exec (fun _ _ => true) x.1 as).isSome)
    (fun _ _ _ => trivial) ⟨⟨_, 0, rfl⟩, rfl⟩ (by decide)
  simp only [Bool.and_eq_true, decide_eq_true_eq] at hp
  obtain ⟨⟨⟨⟨⟨hasleep, hlate⟩, hmissed, hready⟩, hpending, hhandler⟩, hserving⟩, hrun⟩ := hp
  obtain ⟨s', hs'⟩ := Option.isSome_iff_exists.mp hrun
  have hdue : ¬ x.1.Due 0 := by
    rintro (hdue | ⟨i, -, hdue⟩ | ⟨readfds, i, hdue⟩)
    · exact absurd hdue (by simp [hpending])
    · exact absurd hdue (by simp [hhandler])
    · exact absurd hserving (by simp [hdue, PicPc.isServing])
  have hrun : (serialSys 1).RunIf (fun _ _ => True) x.1 as s' :=
    Sys.RunIf.of_exec (fun _ _ _ => trivial) hs'
  exact ⟨x, s', as, ⟨hr, hmissed, hready, hdue, hrun⟩,
    terminal_read_wakes 1 hr hasleep hlate hrun (by decide)⟩

/-- **A reader that no interrupt has missed is served promptly**: if there are bytes for it and the
keyboard stays connected, then before the PIC begins its second pass the interrupt is on its way, the
reader is awake, or others have read the bytes. -/
theorem terminal_read_prompt (ports : Nat) {x : SerialPorts T × SerialHistory T}
    (hr : (serialHistorySys ports).Reach x) {t : T} {devno size : Nat}
    (ht : x.1.pc t = .asleep devno size) (hmissed : x.2.missed t = false)
    (hfifo : x.1.fifo devno ≠ []) {s' : SerialPorts T} {as : List (SerialAction T)}
    (hrun : (serialSys ports).RunIf (fun _ a => a.connects devno = true) x.1 as s')
    (hlong : 1 < as.countP SerialAction.isPass) :
    ∃ pre a post m m', as = pre ++ a :: post ∧
      pre.countP SerialAction.isPass ≤ 1 ∧ (serialSys ports).Run x.1 pre m ∧
      (serialSys ports).step m a = some m' ∧ m'.Settled t devno size := by
  have hs := SerialPorts.timed_inductive.reachIf hr
  have hd : devno < ports := hs.connected t devno (by rw [ht]; rfl)
  exact hrun.responds (E := fun _ _ m' => m'.Settled t devno size)
    (P := SerialPorts.Shown t devno size)
    (fun r m a m' hm hc hstep => hm.step hd hc hstep)
    ⟨ht, hfifo, (hs.shown t devno size (.inr ht) hmissed).imp_right fun h => ⟨h, .inl le_rfl⟩⟩ hlong

/-- A byte comes for a sleeper. -/
theorem terminal_read_prompt_run : ∃ (x : SerialPorts Unit × SerialHistory Unit)
    (s' : SerialPorts Unit) (as : List (SerialAction Unit)),
    ((serialHistorySys 1).Reach x ∧ x.1.intpending = false ∧
      (serialSys 1).RunIf (fun _ a => a.connects 0 = true) x.1 as s') ∧
      ∃ pre a post m m', as = pre ++ a :: post ∧
        pre.countP SerialAction.isPass ≤ 1 ∧ (serialSys 1).Run x.1 pre m ∧
        (serialSys 1).step m a = some m' ∧ m'.Settled () 0 2 := by
  let as : List (SerialAction Unit) := keyboardPass 1 ++ keyboardPass 301
  let check : SerialPorts Unit → SerialAction Unit → Bool := fun _ a => a.connects 0
  obtain ⟨x, hr, hp⟩ := Sys.reachIf_of_exec (M := serialHistorySys 1) (C := fun _ _ => True)
    (fun _ _ => true) (oneKeyboard, _)
    [.read () 0 2, .next (), .next (), .next (), .next (), .send 0 65]
    (fun x => decide (x.1.pc () = .asleep 0 2 ∧ x.2.missed () = false ∧ x.1.fifo 0 ≠ [] ∧
      x.1.intpending = false) && ((serialSys 1).exec check x.1 as).isSome)
    (fun _ _ _ => trivial) ⟨⟨_, 0, rfl⟩, rfl⟩ (by decide)
  simp only [Bool.and_eq_true, decide_eq_true_eq] at hp
  obtain ⟨⟨hasleep, hmissed, hfifo, hpending⟩, hrun⟩ := hp
  obtain ⟨s', hs'⟩ := Option.isSome_iff_exists.mp hrun
  have hrun : (serialSys 1).RunIf (fun _ a => a.connects 0 = true) x.1 as s' :=
    Sys.RunIf.of_exec (fun _ _ h => h) hs'
  exact ⟨x, s', as, ⟨hr, hpending, hrun⟩,
    terminal_read_prompt 1 hr hasleep hmissed hfifo hrun (by decide)⟩

end TinyOS
