import TinyOS.Proc.Reap

/-!
# Threads that wait for a child

`WaitChild` looks once whether there is anything to wait for: `wait_for_specific_child` whether the
pid names a child of the process, `wait_for_any_child` whether the process has children. Then it
sleeps in a loop that looks for an exited child only. **While it sleeps, the other threads of the
process may take away what it waits for**: reap the child, or the last of the children, or exit and
so hand the children to the initial task. The loop then sleeps again, on the `child_exit` of a
process that has no children, or on a PCB that belongs to somebody else (`not_waiters_awaited`).

In every run in which a waiter that wakes finds its children there, and no process exits under one
that sleeps, those that sleep have something to wait for (`waiters_awaited`). The history records,
for each thread, the process that it found in the PCB when it called `WaitChild`.
-/

set_option autoImplicit false

namespace TinyOS

open Transition

namespace ProcTable

variable {maxProc : Nat} {t : ProcTable} {free : List Nat} {p found : Nat} {w : WaitTarget}

/-- What a thread of the process `p` may sleep for: the child that it found, alive; or any child,
some of them alive and none of them a zombie yet. -/
def Awaits (t : ProcTable) (p found : Nat) : WaitTarget → Prop
  | .child c _ => (t.PT c).pstate = .alive ∧ (t.PT c).parent = some p ∧ t.proc c = found
  | .any _ | .init _ => (∃ c, (t.PT c).pstate = .alive ∧ (t.PT c).parent = some p) ∧
      ∀ c, (t.PT c).pstate = .zombie → (t.PT c).parent ≠ some p

/-- A table in which the living keep their parents, and nobody who is or becomes a zombie comes to
`p`. -/
theorem Awaits.mono {t' : ProcTable} (ha : t.Awaits p found w)
    (hlive : ∀ c, (t.PT c).pstate = .alive → (t.PT c).parent = some p →
      (t'.PT c).pstate = .alive ∧ (t'.PT c).parent = some p ∧ t'.proc c = t.proc c)
    (hzombie : ∀ c, (t'.PT c).pstate = .zombie → (t'.PT c).parent = some p →
      (t.PT c).pstate = .zombie ∧ (t.PT c).parent = some p) : t'.Awaits p found w := by
  have hany : ((∃ c, (t.PT c).pstate = .alive ∧ (t.PT c).parent = some p) ∧
      ∀ c, (t.PT c).pstate = .zombie → (t.PT c).parent ≠ some p) →
      (∃ c, (t'.PT c).pstate = .alive ∧ (t'.PT c).parent = some p) ∧
        ∀ c, (t'.PT c).pstate = .zombie → (t'.PT c).parent ≠ some p := by
    rintro ⟨⟨c, hc, hp⟩, hno⟩
    obtain ⟨hc', hp', -⟩ := hlive c hc hp
    refine ⟨⟨c, hc', hp'⟩, fun c hz hpar => ?_⟩
    obtain ⟨hz', hpar'⟩ := hzombie c hz hpar
    exact hno c hz' hpar'
  cases w with
  | child c store =>
    obtain ⟨hc, hp, hf⟩ := ha
    obtain ⟨hc', hp', hf'⟩ := hlive c hc hp
    exact ⟨hc', hp', hf'.trans hf⟩
  | any store => exact hany ha
  | init v => exact hany ha

theorem Inv.awaits_any (h : t.Inv maxProc free) (hc : (t.PT p).childrenList ≠ [])
    (he : (t.PT p).exitedList = []) : (∃ c, (t.PT c).pstate = .alive ∧ (t.PT c).parent = some p) ∧
      ∀ c, (t.PT c).pstate = .zombie → (t.PT c).parent ≠ some p := by
  have hno : ∀ c, (t.PT c).pstate = .zombie → (t.PT c).parent ≠ some p := by
    intro c hz hp
    have := (h.exited p c).mpr ⟨hz, hp⟩
    simp [he] at this
  obtain ⟨c, hm⟩ := List.exists_mem_of_ne_nil _ hc
  obtain ⟨hf, hp⟩ := (h.children p c).mp hm
  refine ⟨⟨c, ?_, hp⟩, hno⟩
  cases hs : (t.PT c).pstate with
  | free => exact absurd hs hf
  | alive => rfl
  | zombie => exact absurd hp (hno c hs)

/-- Whoever sleeps has a child. -/
theorem Awaits.children (ha : t.Awaits p found w) (h : t.Inv maxProc free) :
    (t.PT p).childrenList ≠ [] := by
  have hmem : ∀ c, (t.PT c).pstate = .alive → (t.PT c).parent = some p →
      (t.PT p).childrenList ≠ [] := fun c hc hp =>
    List.ne_nil_of_mem ((h.children p c).mpr ⟨by simp [hc], hp⟩)
  cases w with
  | child c store => exact hmem c ha.1 ha.2.1
  | any store =>
    obtain ⟨⟨c, hc, hp⟩, -⟩ := ha
    exact hmem c hc hp
  | init v =>
    obtain ⟨⟨c, hc, hp⟩, -⟩ := ha
    exact hmem c hc hp

/-- A new process takes the PCB of none that is in use. -/
theorem Awaits.sysExec (ha : t.Awaits p found w) (h : t.Inv maxProc free) (cur : Nat) :
    (t.sysExec cur).2.Awaits p found w := by
  cases hf : t.pcbFreelist with
  | none =>
    rw [acquirePCB_none hf]
    exact ha
  | some q =>
    have hchain := h.chain
    rw [hf] at hchain
    obtain ⟨rest, rfl, -⟩ := hchain.pop
    have hfree := ((h.unused q).mp List.mem_cons_self).2
    have hq : ¬ q ≤ 1 := fun hle => (h.first q hle).1 hfree
    rw [sysExec_rest hf hq]
    refine ha.mono (fun c hc hp => ?_) fun c hz hp => ?_
    · have hne : c ≠ q := by
        rintro rfl
        simp [hfree] at hc
      simp [sysExec_PT hf hq, hne, hc, hp]
    · have hne : c ≠ q := by
        rintro rfl
        simp [sysExec_PT hf hq] at hz
      simpa [sysExec_PT hf hq, hne] using And.intro hz hp

theorem Awaits.cleanupZombie (ha : t.Awaits p found w) {c : Nat} (hz : (t.PT c).pstate = .zombie)
    (cur : Nat) (store : Bool) : (t.cleanupZombie cur c store).Awaits p found w := by
  refine ha.mono (fun d hd hp => ?_) fun d hd hp => ?_
  · have hne : d ≠ c := by
      rintro rfl
      simp [hz] at hd
    exact ⟨by simp [cleanupZombie_PT, hne, hd], by simp [cleanupZombie_PT, hne, hp], rfl⟩
  · have hne : d ≠ c := by
      rintro rfl
      simp [cleanupZombie_PT] at hd
    simpa [cleanupZombie_PT, hne] using And.intro hd hp

/-- The parent of a process that exits, once its children went to the initial task. -/
def exitParent (t : ProcTable) (cur : Nat) : Option Nat :=
  if cur ∈ (t.PT cur).childrenList then some 1 else (t.PT cur).parent

/-- **`Exit`** takes nothing from the waiters of another process that it does not wake. -/
theorem Awaits.sysExit (ha : t.Awaits p found w) (h : t.Inv maxProc free) {cur : Nat} (v : Int)
    (hcur : cur = 1 → (t.PT 1).childrenList = []) (hp : p ≠ cur)
    (hinit : (t.PT cur).exitedList ≠ [] → p ≠ 1) (hparent : t.exitParent cur ≠ some p) :
    (t.sysExit cur v).Awaits p found w := by
  have hchild : ∀ c, (t.PT c).parent = some p → c ∉ (t.PT cur).childrenList := by
    intro c hc hm
    have := ((h.children cur c).mp hm).2
    rw [hc, Option.some.injEq] at this
    exact hp this
  rw [h.sysExit_eq v hcur]
  refine ha.mono (fun c hc hpar => ?_) fun c hz hpar => ?_
  · have hne : c ≠ cur := by
      rintro rfl
      refine hparent ?_
      rw [exitParent, if_neg (hchild c hpar), hpar]
    simp [hne, hc, hchild c hpar, hpar]
  · simp only at hz hpar
    by_cases hc : c = cur
    · subst hc
      exact absurd hpar hparent
    · rw [if_neg hc] at hz
      split at hpar
      · -- A zombie that the initial task has just got.
        rename_i hm
        have hex : c ∈ (t.PT cur).exitedList :=
          (h.exited cur c).mpr ⟨hz, ((h.children cur c).mp hm).2⟩
        exact absurd (Option.some.inj hpar).symm (hinit (List.ne_nil_of_mem hex))
      · exact ⟨hz, hpar⟩

end ProcTable

/-- In `kernel_wait`, and not made ready. -/
def ProcPc.asleep : ProcPc → Bool
  | .waiting _ false => true
  | _ => false

namespace Procs

variable {maxProc : Nat} {s s' : Procs} {found : Nat → Nat}

/-- History: the process that each thread found in the PCB when it called `WaitChild`. -/
def noteFound (s : Procs) (a : ProcAction) (_ : Procs) (found : Nat → Nat) : Nat → Nat :=
  match a with
  | .waitChild u cpid _ => Function.update found u (s.proc cpid.toNat)
  | _ => found

/-- No wake-up is pending. -/
def Quiet (s : Procs) : Prop := ∀ u w, s.pc u ≠ .waiting w true

/-- Whoever sleeps in `WaitChild` has somebody to wait for. -/
structure Awaited (s : Procs) (found : Nat → Nat) : Prop where
  /-- A thread asleep in `WaitChild(NOPROC)` belongs to a process with children. -/
  any : ∀ u, ((∃ store, s.pc u = .waiting (.any store) false) ∨
      ∃ v, s.pc u = .waiting (.init v) false) →
    (s.PT (s.owner u)).childrenList ≠ []
  /-- A thread asleep in `WaitChild(cpid)` waits for the child that it found, which is alive. -/
  child : ∀ u c store, s.pc u = .waiting (.child c store) false →
    (s.PT c).pstate = .alive ∧ (s.PT c).parent = some (s.owner u) ∧
      c ∈ (s.PT (s.owner u)).childrenList ∧ s.proc c = found u

/-- A waiter that goes on finds its children still there, and no process exits while one of its
threads sleeps in `WaitChild`. The exit of the initial task reaps all its children first. -/
def StillThere (s : Procs) (found : Nat → Nat) : ProcAction → Prop
  | .resume u =>
    match s.pc u with
    | .waiting (.child c _) true =>
      (s.PT c).pstate ≠ .free ∧ (s.PT c).parent = some (s.owner u) ∧ s.proc c = found u
    | .waiting (.any _) true | .waiting (.init _) true => (s.PT (s.owner u)).childrenList ≠ []
    | _ => True
  | .exit u _ =>
    s.owner u = 1 ∨ ∀ x < s.threads, s.owner x = s.owner u → (s.pc x).asleep = false
  | _ => True

instance (s : Procs) (found : Nat → Nat) : (a : ProcAction) → Decidable (s.StillThere found a)
  | .resume u =>
    (match s.pc u with
    | .waiting (.child c _) true => inferInstanceAs (Decidable ((s.PT c).pstate ≠ .free ∧
        (s.PT c).parent = some (s.owner u) ∧ s.proc c = found u))
    | .waiting (.any _) true | .waiting (.init _) true =>
      inferInstanceAs (Decidable ((s.PT (s.owner u)).childrenList ≠ []))
    | .waiting (.child ..) false | .waiting (.any _) false | .waiting (.init _) false
    | .unborn | .running | .exited => .isTrue trivial :
      Decidable (match s.pc u with
        | .waiting (.child c _) true =>
          (s.PT c).pstate ≠ .free ∧ (s.PT c).parent = some (s.owner u) ∧ s.proc c = found u
        | .waiting (.any _) true | .waiting (.init _) true => (s.PT (s.owner u)).childrenList ≠ []
        | _ => True))
  | .exit u _ => inferInstanceAs (Decidable (s.owner u = 1 ∨
      ∀ x < s.threads, s.owner x = s.owner u → (s.pc x).asleep = false))
  | .exec .. | .createThread _ | .waitChild .. => .isTrue trivial

/-- The invariant: what is asked for, and that no thread runs before it is made. -/
structure Waiters (s : Procs) (found : Nat → Nat) : Prop where
  asleep : ∀ u w, s.pc u = .waiting w false → s.Awaits (s.owner u) (found u) w
  born : ∀ u, s.threads ≤ u → s.pc u = .unborn

theorem Waiters.awaited (h : s.Waiters found) (hi : s.Inv maxProc) : s.Awaited found := by
  obtain ⟨free, hi⟩ := hi
  refine ⟨?_, fun u c store hu => ?_⟩
  · rintro u (⟨store, hu⟩ | ⟨v, hu⟩)
    · exact (h.asleep u _ hu).children hi
    · exact (h.asleep u _ hu).children hi
  · obtain ⟨hc, hp, hf⟩ := h.asleep u _ hu
    exact ⟨hc, hp, (hi.children _ c).mpr ⟨by simp [hc], hp⟩, hf⟩

/-- Where the children are, no thread of the process sleeps. -/
theorem Waiters.not_asleep (h : s.Waiters found) (hi : s.Inv maxProc) {p : Nat}
    (hc : (s.PT p).childrenList = []) {u : Nat} (hu : s.owner u = p) :
    (s.pc u).asleep = false := by
  obtain ⟨free, hi⟩ := hi
  cases hpc : s.pc u with
  | waiting w ready =>
    cases ready with
    | true => rfl
    | false => exact absurd (hu ▸ hc) ((h.asleep u w hpc).children hi)
  | _ => rfl

/-! ## What moves a thread -/

theorem Waiters.goto (h : s.Waiters found) {u : Nat} (hu : s.pc u ≠ .unborn) {pc : ProcPc}
    (hpc : ∀ w, pc = .waiting w false → s.Awaits (s.owner u) (found u) w) :
    (s.goto u pc).Waiters found where
  asleep x w hx := by
    by_cases hxu : x = u
    · subst hxu
      exact hpc w (by simpa [Procs.goto] using hx)
    · exact h.asleep x w (by simpa [Procs.goto, hxu] using hx)
  born x hx := by
    have hb := h.born x hx
    have hne : x ≠ u := fun he => hu (he ▸ hb)
    simpa [Procs.goto, hne] using hb

/-- The table changes, and takes nothing from those that sleep. -/
theorem Waiters.table (h : s.Waiters found) {t : ProcTable}
    (ht : ∀ u w, s.Awaits (s.owner u) (found u) w → t.Awaits (s.owner u) (found u) w) :
    { s with toProcTable := t }.Waiters found :=
  ⟨fun u w hu => ht u w (h.asleep u w hu), h.born⟩

theorem Waiters.spawnThread (h : s.Waiters found) (p : Nat) : (s.spawnThread p).Waiters found where
  asleep u w hu := by
    by_cases hne : u = s.threads
    · simp [Procs.spawnThread, hne] at hu
    · have := h.asleep u w (by simpa [Procs.spawnThread, hne] using hu)
      simpa [Procs.spawnThread, hne] using this
  born u hu := by
    have hle : s.threads + 1 ≤ u := hu
    have hne : u ≠ s.threads := by omega
    simpa [Procs.spawnThread, hne] using h.born u (by omega)

theorem Waiters.sysExec (h : s.Waiters found) (hi : s.Inv maxProc) (u : Nat) (call : Bool) :
    (s.sysExec u call).Waiters found := by
  obtain ⟨free, hi⟩ := hi
  unfold Procs.sysExec
  split
  · exact h
  · rename_i p t he
    have ht : { s with toProcTable := t }.Waiters found := h.table fun x w ha => by
      have := ha.sysExec hi (s.owner u)
      rwa [he] at this
    split
    · exact ht.spawnThread p
    · exact ht

theorem Waiters.cleanupZombie (h : s.Waiters found) {u c : Nat} (store : Bool)
    (hz : (s.PT c).pstate = .zombie) : (s.cleanupZombie u c store).Waiters found :=
  h.table fun _ _ ha => ha.cleanupZombie hz _ store

/-- A thread calls `WaitChild` again. -/
theorem Waiters.call (h : s.Waiters found) {u : Nat} (hu : s.pc u = .running) (i : Nat) :
    s.Waiters (Function.update found u i) := by
  refine ⟨fun x w hx => ?_, h.born⟩
  have hne : x ≠ u := by
    rintro rfl
    simp [hu] at hx
  rw [Function.update_of_ne hne]
  exact h.asleep x w hx

/-! ## `WaitChild` -/

theorem Waiters.specificLoop (h : s.Waiters found) {u c : Nat} (hu : s.pc u ≠ .unborn)
    (store : Bool) (hf : (s.PT c).pstate ≠ .free) (hp : (s.PT c).parent = some (s.owner u))
    (hfound : s.proc c = found u) : (s.specificLoop u c store).Waiters found := by
  unfold Procs.specificLoop
  split
  · rename_i ha
    refine h.goto hu fun w hw => ?_
    cases hw
    exact ⟨ha, hp, hfound⟩
  · rename_i ha
    have hz : (s.PT c).pstate = .zombie := by
      cases hs : (s.PT c).pstate with
      | free => exact absurd hs hf
      | alive => exact absurd hs ha
      | zombie => rfl
    exact (h.cleanupZombie store hz).goto hu fun w hw => by cases hw

theorem Waiters.anyLoop (h : s.Waiters found) (hi : s.Inv maxProc) {u : Nat}
    (hu : s.pc u ≠ .unborn) {store : Bool} (hc : (s.PT (s.owner u)).childrenList ≠ [])
    (hs : s.anyLoop u store = some s') : s'.Waiters found := by
  unfold Procs.anyLoop at hs
  split at hs
  · rename_i he
    cases hs
    refine h.goto hu fun w hw => ?_
    cases hw
    exact hi.elim fun _ hi => hi.awaits_any hc he
  · split at hs
    · rename_i hz
      cases hs
      exact (h.cleanupZombie store hz).goto hu fun w hw => by cases hw
    · cases hs

/-! ## `Exit` -/

/-- A broadcast wakes the threads of its process and no others. -/
theorem broadcastChildExit_pc (s : Procs) (p u : Nat) (w : WaitTarget) :
    (s.broadcastChildExit p).pc u = .waiting w false ↔
      s.pc u = .waiting w false ∧ s.owner u ≠ p := by
  simp only [broadcastChildExit]
  cases s.pc u <;> simp [and_assoc]

/-- What `Exit` does to the threads. -/
theorem finishExit_some {u : Nat} {v : Int} (hs : s.finishExit u v = some s')
    (hcur : s.owner u ≠ 1 ∨ (s.PT (s.owner u)).childrenList = []) :
    s'.toProcTable = s.toProcTable.sysExit (s.owner u) v ∧ s'.owner = s.owner ∧
      s'.threads = s.threads ∧ (∀ x, s.pc x = .unborn → x ≠ u → s'.pc x = .unborn) ∧
      ∀ x w, s'.pc x = .waiting w false → s.pc x = .waiting w false ∧
        ((s.PT (s.owner u)).exitedList ≠ [] → s.owner x ≠ 1) ∧
        s.exitParent (s.owner u) ≠ some (s.owner x) := by
  unfold Procs.finishExit at hs
  simp only at hs
  split at hs
  · cases hs
  · have hparent : ((s.toProcTable.reparent (s.owner u)
        (s.PT (s.owner u)).childrenList).PT (s.owner u)).parent =
          s.exitParent (s.owner u) := by
      rw [ProcTable.reparent_eq _ _ hcur]
      rfl
    rw [hparent] at hs
    -- `s₁`: the table after the exit; `s₂`: the initial task has been told of the exited children.
    obtain ⟨s₁, hs₁⟩ : ∃ s₁ : Procs,
      s₁ = { s with toProcTable := s.toProcTable.sysExit (s.owner u) v } := ⟨_, rfl⟩
    rw [← hs₁] at hs
    obtain ⟨s₂, hs₂⟩ : ∃ s₂ : Procs, s₂ = if (s.PT (s.owner u)).exitedList = [] then s₁
      else s₁.broadcastChildExit 1 := ⟨_, rfl⟩
    rw [← hs₂] at hs
    have h₂ : s₂.toProcTable = s₁.toProcTable ∧ s₂.owner = s.owner ∧ s₂.threads = s.threads ∧
        (∀ x, s.pc x = .unborn → s₂.pc x = .unborn) ∧
        ∀ x w, s₂.pc x = .waiting w false → s.pc x = .waiting w false ∧
          ((s.PT (s.owner u)).exitedList ≠ [] → s.owner x ≠ 1) := by
      subst hs₂ hs₁
      split
      · rename_i he
        exact ⟨rfl, rfl, rfl, fun _ hx => hx, fun _ _ hx => ⟨hx, fun hne => absurd he hne⟩⟩
      · refine ⟨rfl, rfl, rfl, fun x hx => (unborn_broadcastChildExit _ 1 x).mpr hx,
          fun x w hx => ?_⟩
        obtain ⟨hx, ho⟩ := (broadcastChildExit_pc _ 1 x w).mp hx
        exact ⟨hx, fun _ => ho⟩
    obtain ⟨ht, ho, hn, hb, hw⟩ := h₂
    -- And then the parent, if there is one.
    cases hp : s.exitParent (s.owner u) with
    | none =>
      rw [hp] at hs
      obtain rfl := Option.some.inj hs
      refine ⟨ht.trans (hs₁ ▸ rfl), ho, hn, fun x hx hxu => ?_, fun x w hx => ?_⟩
      · simpa [Procs.goto, hxu] using hb x hx
      · have hxu : x ≠ u := by
          rintro rfl
          simp [Procs.goto] at hx
        obtain ⟨h₁, h₂⟩ := hw x w (by simpa [Procs.goto, hxu] using hx)
        exact ⟨h₁, h₂, by simp⟩
    | some p =>
      rw [hp] at hs
      obtain rfl := Option.some.inj hs
      refine ⟨ht.trans (hs₁ ▸ rfl), ho, hn, fun x hx hxu => ?_, fun x w hx => ?_⟩
      · simpa [Procs.goto, hxu] using (unborn_broadcastChildExit s₂ p x).mpr (hb x hx)
      · have hxu : x ≠ u := by
          rintro rfl
          simp [Procs.goto] at hx
        obtain ⟨hx, hop⟩ := (broadcastChildExit_pc s₂ p x w).mp
          (by simpa [Procs.goto, hxu] using hx)
        obtain ⟨h₁, h₂⟩ := hw x w hx
        refine ⟨h₁, h₂, fun he => hop ?_⟩
        rw [ho, Option.some.inj he]

theorem Waiters.finishExit (h : s.Waiters found) (hi : s.Inv maxProc) {u : Nat} {v : Int}
    (hu : s.pc u ≠ .unborn) (hcur : s.owner u = 1 → (s.PT 1).childrenList = [])
    (hno : ∀ x, s.owner x = s.owner u → (s.pc x).asleep = false)
    (hs : s.finishExit u v = some s') : s'.Waiters found := by
  have hcur' : s.owner u ≠ 1 ∨ (s.PT (s.owner u)).childrenList = [] := by
    by_cases ho : s.owner u = 1
    · exact .inr (by rw [ho]; exact hcur ho)
    · exact .inl ho
  obtain ⟨ht, ho, hn, hb, hw⟩ := finishExit_some hs hcur'
  obtain ⟨free, hi⟩ := hi
  refine ⟨fun x w hx => ?_, fun x hx => ?_⟩
  · obtain ⟨hx', hinit, hparent⟩ := hw x w hx
    have hne : s.owner x ≠ s.owner u := by
      intro he
      have := hno x he
      simp [hx', ProcPc.asleep] at this
    rw [ht, ho]
    exact (h.asleep x w hx').sysExit hi v hcur hne hinit hparent
  · have hx' := h.born x (hn ▸ hx)
    exact hb x hx' fun he => hu (he ▸ hx')

/-- The initial task reaps its children one by one; the induction is on those that have exited. -/
theorem Waiters.initLoop (h : s.Waiters found) (hi : s.Inv maxProc) {u : Nat} {v : Int}
    (hu : s.pc u ≠ .unborn) {exited : List Nat}
    (hl : (s.PT (s.owner u)).exitedList = exited) (hs : initLoop u v exited s = some s') :
    s'.Waiters found := by
  induction exited generalizing s with
  | nil =>
    unfold Procs.initLoop at hs
    split at hs
    · rename_i hc
      exact h.finishExit hi hu (fun ho => ho ▸ hc) (fun x hx => h.not_asleep hi hc hx) hs
    · rename_i hc
      cases hs
      refine h.goto hu fun w hw => ?_
      cases hw
      exact hi.elim fun _ hi => hi.awaits_any hc hl
  | cons c cs ih =>
    unfold Procs.initLoop at hs
    split at hs
    · rename_i hc
      exact h.finishExit hi hu (fun ho => ho ▸ hc) (fun x hx => h.not_asleep hi hc hx) hs
    · obtain ⟨hz, hp⟩ := hi.head hl
      simp only [hz, if_true] at hs
      refine ih (h.cleanupZombie false hz) (hi.cleanupZombie false hz hp) hu ?_ hs
      simp [Procs.cleanupZombie, ProcTable.cleanupZombie_PT, hl]

theorem Waiters.resumeInit (h : s.Waiters found) (hi : s.Inv maxProc) {u : Nat} {v : Int}
    (hu : s.pc u ≠ .unborn) (hc : (s.PT (s.owner u)).childrenList ≠ [])
    (hs : s.resumeInit u v = some s') : s'.Waiters found := by
  unfold Procs.resumeInit at hs
  split at hs
  · rename_i he
    cases hs
    refine h.goto hu fun w hw => ?_
    cases hw
    exact hi.elim fun _ hi => hi.awaits_any hc he
  · rename_i c cs hl
    obtain ⟨hz, hp⟩ := hi.head hl
    rw [if_pos hz] at hs
    refine (h.cleanupZombie false hz).initLoop (hi.cleanupZombie false hz hp) hu ?_ hs
    simp [Procs.cleanupZombie, ProcTable.cleanupZombie_PT, hl]

/-! ## The system -/

theorem StillThere.sound {a : ProcAction} (hc : s.StillThere found a) : s.Sound a := by
  cases a with
  | resume u =>
    simp only [StillThere] at hc
    simp only [Sound]
    split
    · rename_i c store hpc
      rw [hpc] at hc
      obtain ⟨hf, hp, -⟩ := hc
      cases hs : (s.PT c).pstate with
      | free => exact absurd hs hf
      | alive => exact .inl rfl
      | zombie => exact .inr ⟨rfl, hp⟩
    · trivial
  | _ => trivial

/-- **One step** keeps the invariant, if it meets the condition. -/
theorem Waiters.perform (h : s.Waiters found) (hi : s.Inv maxProc) {a : ProcAction}
    (hc : s.StillThere found a) (hp : s.perform maxProc a = some s') :
    s'.Waiters (s.noteFound a s' found) := by
  cases a with
  | exec u call =>
    obtain ⟨-, hs⟩ := Option.ite_none_right_eq_some.mp hp
    cases hs
    exact h.sysExec hi u call
  | createThread u =>
    obtain ⟨-, hs⟩ := Option.ite_none_right_eq_some.mp hp
    cases hs
    exact h.spawnThread _
  | waitChild u cpid store =>
    obtain ⟨hu, hs⟩ := Option.ite_none_right_eq_some.mp hp
    have hu' : s.pc u ≠ .unborn := by simp [hu]
    have h' := h.call hu (s.proc cpid.toNat)
    unfold Procs.sysWaitChild at hs
    split at hs
    · cases hs
      unfold Procs.waitForSpecificChild
      split
      · exact h'
      · simp only
        split
        · exact h'
        · rename_i ht
          obtain ⟨hf, hpar⟩ := not_or.mp ht
          refine h'.specificLoop hu' store hf (not_not.mp hpar) ?_
          simp
    · unfold Procs.waitForAnyChild at hs
      split at hs
      · cases hs
        exact h'
      · rename_i hch
        exact h'.anyLoop hi hu' hch hs
  | exit u v =>
    obtain ⟨hu, hs⟩ := Option.ite_none_right_eq_some.mp hp
    have hu' : s.pc u ≠ .unborn := by simp [hu]
    unfold Procs.sysExit at hs
    split at hs
    · rename_i ho
      exact h.initLoop hi hu' (by rw [ho]) hs
    · rename_i ho
      refine h.finishExit hi hu' (fun he => absurd he ho) (fun x hx => ?_) hs
      by_cases hlt : x < s.threads
      · exact hc.resolve_left ho x hlt hx
      · rw [h.born x (Nat.le_of_not_lt hlt)]
        rfl
  | resume u =>
    -- The three loops that a waiter may be in; each goes back to its test.
    simp only [Procs.perform] at hp
    simp only [StillThere] at hc
    split at hp
    · rename_i c store hpc
      rw [hpc] at hc
      cases hp
      exact h.specificLoop (by simp [hpc]) store hc.1 hc.2.1 hc.2.2
    · rename_i store hpc
      rw [hpc] at hc
      exact h.anyLoop hi (by simp [hpc]) hc hp
    · rename_i v hpc
      rw [hpc] at hc
      exact h.resumeInit hi (by simp [hpc]) hc hp
    · cases hp

theorem inductive_waiters (h : 2 ≤ maxProc) :
    ((procSys maxProc).record (fun _ => 0) noteFound).InductiveIf
      (fun x a => x.1.StillThere x.2 a) fun x => x.1.Inv maxProc ∧ x.1.Waiters x.2 where
  init := by
    rintro ⟨_, found⟩ ⟨rfl, rfl⟩
    refine ⟨(inductive_inv h).init _ rfl, ?_⟩
    rw [ProcTable.boot_eq h]
    refine ⟨fun u w hu => ?_, fun u hu => ?_⟩
    · simp only at hu
      split at hu <;> cases hu
    · exact if_neg (by simp only at hu; omega)
  step := by
    rintro ⟨s, found⟩ a ⟨s', found'⟩ ⟨hi, hw⟩ hc hp
    obtain ⟨s₁, hs₁, he⟩ := Option.map_eq_some_iff.mp hp
    cases he
    exact ⟨(inductive_inv h).step s a s' hi (StillThere.sound hc) hs₁, hw.perform hi hc hs₁⟩

end Procs

/-- **Whoever sleeps in `WaitChild` has something to wait for**, in every run in which each waiter
that goes on finds its children still there and no process exits while one of its threads sleeps
there. -/
theorem waiters_awaited (maxProc : Nat) (h : 2 ≤ maxProc) (x : Procs × (Nat → Nat))
    (hr : ((procSys maxProc).record (fun _ => 0) Procs.noteFound).ReachIf
      (fun x a => x.1.StillThere x.2 a) x) : x.1.Awaited x.2 :=
  have hx := (Procs.inductive_waiters h).reachIf hr
  hx.2.awaited hx.1

/-- One thread of the initial task waits for its child, another one for any child. -/
theorem waiters_awaited_run : 2 ≤ MAX_PROC ∧ ∃ x : Procs × (Nat → Nat), x.1.Awaited x.2 ∧
    x.1.pc 0 = .waiting (.any true) false ∧ x.1.pc 2 = .waiting (.child 2 true) false := by
  obtain ⟨x, hr, hp⟩ := Sys.reachIf_of_exec
    (M := (procSys MAX_PROC).record (fun _ => 0) Procs.noteFound)
    (C := fun x a => x.1.StillThere x.2 a) (fun x a => decide (x.1.StillThere x.2 a)) (_, _)
    [.exec 0 true, .createThread 0, .waitChild 0 (-1) true, .waitChild 2 2 true]
    (fun x => decide (x.1.pc 0 = .waiting (.any true) false ∧
      x.1.pc 2 = .waiting (.child 2 true) false))
    (fun x a h => of_decide_eq_true h) ⟨(ProcTable.boot_eq (by decide)).symm, rfl⟩ (by decide)
  exact ⟨by decide, x, waiters_awaited MAX_PROC (by decide) x hr, of_decide_eq_true hp⟩

/-- The thread that waits for the child reaps it. The thread that waits for any child finds none
exited, and sleeps on, in a process without children. -/
theorem not_waiters_awaited : ¬ ∀ x : Procs × (Nat → Nat),
    ((procSys MAX_PROC).record (fun _ => 0) Procs.noteFound).Reach x →
    x.1.Quiet → x.1.Awaited x.2 := by
  intro hall
  obtain ⟨⟨s, found⟩, hr, hp⟩ := Sys.reachIf_of_exec
    (M := (procSys MAX_PROC).record (fun _ => 0) Procs.noteFound)
    (C := fun x a => x.1.StillThere x.2 a) (fun x a => decide (x.1.StillThere x.2 a)) (_, _)
    [.exec 0 true, .createThread 0, .waitChild 0 (-1) true, .waitChild 2 2 true, .exit 1 5,
      .resume 2]
    (fun x => decide (x.1.pc 0 = .waiting (.any true) true ∧ x.1.pc 1 = .exited ∧
      x.1.pc 2 = .running ∧ x.1.threads = 3 ∧ (x.1.PT (x.1.owner 0)).exitedList = [] ∧
      (x.1.PT (x.1.owner 0)).childrenList = []))
    (fun x a h => of_decide_eq_true h) ⟨(ProcTable.boot_eq (by decide)).symm, rfl⟩ (by decide)
  obtain ⟨h0, h1, h2, hn, he, hc⟩ := of_decide_eq_true hp
  simp only at h0 h1 h2 hn he hc
  have hw := ((Procs.inductive_waiters (by decide)).reachIf hr).2
  have hstep : (procSys MAX_PROC).step s (.resume 0) =
      some (s.goto 0 (.waiting (.any true) false)) := by
    simp [procSys, Procs.perform, h0, Procs.anyLoop, he]
  have hreach : ((procSys MAX_PROC).record (fun _ => 0) Procs.noteFound).Reach
      (s.goto 0 (.waiting (.any true) false), found) :=
    hr.reach.next (a := .resume 0) (Option.map_eq_some_iff.mpr ⟨_, hstep, rfl⟩)
  have hquiet : (s.goto 0 (.waiting (.any true) false)).Quiet := by
    intro u w
    rcases u with _ | _ | _ | n
    · simp [Procs.goto]
    · simp [Procs.goto, h1]
    · simp [Procs.goto, h2]
    · have hb := hw.born (n + 3) (by simp only; omega)
      simp only at hb
      simp [Procs.goto, hb]
  have hany := (hall _ hreach hquiet).any 0 (.inl ⟨true, by simp [Procs.goto]⟩)
  exact hany hc

end TinyOS
