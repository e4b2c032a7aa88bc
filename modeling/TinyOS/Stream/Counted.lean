import TinyOS.Stream.Refcount

/-!
# Every stream is closed once

`Counted` says it without the invariant's bookkeeping: what refers to an FCB is read off the file
tables and the positions of the threads. It holds in every run in which no `Socket` runs out of
memory (`refcount_exact`).

A `Socket` that does run out of memory breaks it (`not_refcount_exact`). In a kernel that has just
booted, the FCB it leaves behind has no stream at all, and to close its fid is a crash. So the run
below first uses up every FCB of the table, by opening and closing the null device.
-/

set_option autoImplicit false

namespace TinyOS

open Transition FileTables

namespace Streams

/-- The reference `r` is to the FCB `f`. -/
def refers (s : Streams) (f : Nat) : Ref → Prop
  | .entry p fid => s.FIDT p fid = some f
  | .thread u => (s.pc u).fcb = some f

/-- Something refers to the FCB that holds the stream `i`. -/
def held (s : Streams) (i : Nat) : Prop := ∃ f r, s.refers f r ∧ s.opening f = i

structure Counted (s : Streams) : Prop where
  /-- An FCB is free, or its `refcount` is the number of references to it. -/
  fcbs : ∀ f, ∃ refs : List Ref, refs.Nodup ∧ (∀ r, r ∈ refs ↔ s.refers f r) ∧
    (f ∈ s.freelist ↔ f < MAX_FILES ∧ refs = []) ∧ (refs ≠ [] → (s.FT f).refcount = refs.length)
  nodup : s.freelist.Nodup
  /-- FCBs with references hold streams that were opened, and different ones. -/
  opened : ∀ f r, s.refers f r → s.opening f < s.opens ∧
    ∀ g r', s.refers g r' → s.opening g = s.opening f → g = f
  /-- A stream was not closed as long as something refers to its FCB, and once when nothing does. -/
  closed : ∀ i < s.opens,
    (s.held i → s.closes.count i = 0) ∧ (¬ s.held i → s.closes.count i = 1)
  closes : ∀ i ∈ s.closes, i < s.opens

theorem Inv.counted {s : Streams} {R : Nat → List Ref} (h : s.Inv R) : s.Counted := by
  have hrefers : ∀ f r, r ∈ R f ↔ s.refers f r := by
    intro f r
    cases r with
    | entry p fid => exact h.files.entries f p fid
    | thread u => exact h.files.threads f u
  have hne : ∀ f r, s.refers f r → R f ≠ [] := fun f r hr =>
    List.ne_nil_of_mem ((hrefers f r).mpr hr)
  constructor
  case fcbs =>
    intro f
    refine ⟨R f, h.files.refs f, hrefers f, ?_, h.files.count f⟩
    simpa using h.files.free f
  case nodup => exact h.files.nodup
  case opened =>
    intro f r hr
    exact ⟨(h.opened.opening f (hne f r hr)).1,
      fun g r' hr' => h.opened.inj g f (hne g r' hr') (hne f r hr)⟩
  case closed =>
    intro i hi
    constructor
    · rintro ⟨f, r, hr, rfl⟩
      exact List.count_eq_zero.mpr (h.opened.opening f (hne f r hr)).2
    · intro hunused
      refine List.count_eq_one_of_mem h.opened.closes.1 ((h.opened.all i hi).resolve_right ?_)
      rintro ⟨f, hf, he⟩
      obtain ⟨r, hr⟩ := List.exists_mem_of_ne_nil _ hf
      exact hunused ⟨f, r, (hrefers f r).mp hr, he⟩
  case closes => exact h.opened.closes.2

end Streams

/-- **Every stream is counted exactly and closed once**, in every run in which no `malloc` of a
`Socket` or an `OpenInfo` fails. -/
theorem refcount_exact (s : Streams) (hr : streamSys.ReachIf (fun s a => s.Sound a) s) :
    s.Counted := by
  obtain ⟨R, h⟩ := Streams.inductive_inv.reachIf hr
  exact h.counted

/-- A child inherits two fids of the same stream, and closes one while its parent closes both. -/
theorem refcount_exact_run : ∃ s, Streams.Counted s ∧
    s.FIDT 2 0 = some 0 ∧ s.FIDT 2 5 = none ∧ (s.FT 0).refcount = 1 ∧ s.closes = [] := by
  obtain ⟨s, hr, hp⟩ := Sys.reachIf_of_exec (M := streamSys) (C := fun s a => s.Sound a)
    (fun s a => decide (s.Sound a)) (Streams.initial 0)
    [.openNull 0, .dup2 0 0 5, .exec 0 2 true, .close 0 0, .close 0 5, .close 1 5]
    (fun s => decide (s.FIDT 2 0 = some 0 ∧ s.FIDT 2 5 = none ∧ (s.FT 0).refcount = 1 ∧
      s.closes = []))
    (fun s a h => of_decide_eq_true h) ⟨0, rfl⟩ (by decide)
  exact ⟨s, refcount_exact s hr, of_decide_eq_true hp⟩

namespace Streams

/-! ## A stream that is closed twice -/

/-- The null device was opened and closed `k` times, each time in an FCB of its own. -/
def recycled (k : Nat) : Streams :=
  { Streams.initial 0 with
    FT := fun f => { refcount := 0, stream := if f < k then some .null else none }
    freelist := List.range' k (MAX_FILES - k) ++ List.range k
    opens := k
    opening := fun f => if f < k then f else 0
    closes := List.range k }

theorem recycled_zero : recycled 0 = .initial 0 := by
  simp [recycled, initial, initializeFiles]

/-- And is open another time. -/
def recycling (k : Nat) : Streams :=
  { recycled k with
    FIDT := Function.update (fun _ _ => none) 1 (Function.update (fun _ => none) 0 (some k))
    FT := Function.update (recycled k).FT k { refcount := 1, stream := some .null }
    freelist := List.range' (k + 1) (MAX_FILES - (k + 1)) ++ List.range k
    opens := k + 1
    opening := Function.update (recycled k).opening k k }

theorem openStream_recycled {k : Nat} (hk : k < MAX_FILES) :
    (recycled k).openStream 1 (some .null) = recycling k := by
  have hfids : (recycled k).findFids 1 1 fids = [0] := rfl
  have hfree : (recycled k).freelist =
      k :: (List.range' (k + 1) (MAX_FILES - (k + 1)) ++ List.range k) := by
    change List.range' k (MAX_FILES - k) ++ _ = _
    rw [show MAX_FILES - k = MAX_FILES - (k + 1) + 1 by omega, List.range'_succ]
    rfl
  rw [openStream, reserveFCB_one hfids hfree]
  simp [openFCB, modifyFCB, FileTables.install, increfFCB, setEntry, recycling, recycled]
  rfl

theorem sysClose_recycling (k : Nat) :
    (recycling k).sysClose 1 0 = some (recycled (k + 1)) := by
  have hget : (recycling k).getFCB 1 0 = some k := by simp [getFCB, recycling, MAX_FILEID]
  have hFT : Function.update (recycled k).FT k { refcount := 0, stream := some .null } =
      (recycled (k + 1)).FT := by
    funext f
    simp only [Function.update_apply, recycled]
    grind
  have hopening : Function.update (recycled k).opening k k = (recycled (k + 1)).opening := by
    funext f
    simp only [Function.update_apply, recycled]
    grind
  have hcloses : (recycled k).closes ++ [k] = (recycled (k + 1)).closes := List.range_succ.symm
  rw [sysClose, hget]
  simp [decrefFCB, decrementFCB, modifyFCB, setEntry, recycling, closeStream, releaseFCB]
  rw [hFT, hopening, hcloses, ← List.range_succ]
  rfl

theorem reach_recycled (k : Nat) (hk : k ≤ MAX_FILES) :
    streamSys.ReachIf (fun s a => s.Alive a) (recycled k) := by
  induction k with
  | zero => exact recycled_zero ▸ .init ⟨0, rfl⟩
  | succ k ih =>
    have hk : k < MAX_FILES := by omega
    have hopen : streamSys.ReachIf (fun s a => s.Alive a) (recycling k) :=
      .step (a := .openNull 0) (ih (by omega)) rfl (congrArg some (openStream_recycled hk))
    exact .step (a := .close 0 0) hopen rfl (sysClose_recycling k)

/-- Every FCB was used, `n` in all; then `Socket` has run out of memory, in the FCB 0. -/
def leftBehind (n : Nat) : Streams :=
  { recycled n with
    FIDT := Function.update (fun _ _ => none) 1 (Function.update (fun _ => none) 0 (some 0))
    FT := Function.update (recycled n).FT 0 { refcount := 1, stream := some .null }
    freelist := List.range' 1 (n - 1) }

theorem sysSocket_recycled : ((recycled MAX_FILES).sysSocket 1 0 false).2 = leftBehind MAX_FILES := by
  have hpos : 0 < MAX_FILES := by decide
  generalize hn : MAX_FILES = n at hpos
  have hfids : (recycled n).findFids 1 1 fids = [0] := rfl
  have hrange : List.range n = 0 :: List.range' 1 (n - 1) := by
    obtain ⟨m, rfl⟩ := Nat.exists_eq_add_of_lt hpos
    rw [Nat.zero_add, List.range_eq_range', List.range'_succ, Nat.add_sub_cancel]
  have hfree : (recycled n).freelist = 0 :: List.range' 1 (n - 1) := by
    simp only [recycled, hn, Nat.sub_self, List.range'_zero, List.nil_append, hrange]
  have hstream : ((recycled n).FT 0).stream = some .null := if_pos hpos
  rw [sysSocket, if_neg (by decide), reserveFCB_one hfids hfree]
  simp only [modifyFCB, FileTables.install, increfFCB, setEntry, Function.update_self, hstream,
    Function.update_idem, leftBehind]
  rfl

theorem sysClose_leftBehind {n : Nat} (hn : 0 < n) :
    ((leftBehind n).sysClose 1 0).map (·.closes) = some (List.range n ++ [0]) := by
  have hget : (leftBehind n).getFCB 1 0 = some 0 := by simp [getFCB, leftBehind, MAX_FILEID]
  have hopening : (leftBehind n).opening 0 = 0 := if_pos hn
  have hstream : ((leftBehind n).FT 0).stream = some .null := rfl
  rw [sysClose, hget]
  simp only [decrefFCB, decrementFCB, modifyFCB, setEntry_FT, Function.update_self, hstream,
    closeStream, Option.map_some, hopening]
  rfl

theorem perform_socket (n : Nat) : (recycled n).perform (.socket 0 0 false) =
    some ((recycled n).sysSocket 1 0 false).2 := rfl

theorem perform_close (n : Nat) : (leftBehind n).perform (.close 0 0) =
    (leftBehind n).sysClose 1 0 := rfl

end Streams

/-- The fid that `Socket` has left behind is closed. -/
theorem not_refcount_exact :
    ¬ ∀ s, streamSys.ReachIf (fun s a => s.Alive a) s → s.Counted := by
  intro hall
  have hpos : 0 < MAX_FILES := by decide
  have hfull := Streams.reach_recycled MAX_FILES (Nat.le_refl _)
  have hperform := Streams.perform_socket MAX_FILES
  rw [Streams.sysSocket_recycled] at hperform
  obtain ⟨s, hs, hcloses⟩ := Option.map_eq_some_iff.mp (Streams.sysClose_leftBehind hpos)
  rw [← Streams.perform_close] at hs
  generalize MAX_FILES = n at *
  have hsocket : streamSys.ReachIf (fun s a => s.Alive a) (.leftBehind n) :=
    .step (a := .socket 0 0 false) hfull rfl hperform
  have hcounted := hall s (.step (a := .close 0 0) hsocket rfl hs)
  have htwice : s.closes.count 0 = 2 := by
    rw [hcloses, List.count_append,
      List.count_eq_one_of_mem List.nodup_range (List.mem_range.mpr hpos)]
    rfl
  have hone := hcounted.closed 0 (hcounted.closes 0 (by simp [hcloses]))
  by_cases hheld : s.held 0
  · simp [hone.1 hheld] at htwice
  · simp [hone.2 hheld] at htwice

end TinyOS
