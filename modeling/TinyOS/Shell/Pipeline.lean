import TinyOS.Shell.Split
import TinyOS.Stream.Allotted
import TinyOS.Stream.Tables

/-!
# Wiring a pipeline (`tinyos_shell.c`)

`process_line` gives each child its fids 0 and 1 by changing its own: it saves them at two new fids,
overwrites them around each `Execute` with the ends of the pipes, and puts them back in the end. The
program of `Line` is run here on the file tables of `Stream`, **while the other processes do whatever
they do**. The shell has one thread, so no step of theirs changes its table (`within_perform`).

So a part of the program is a function of the table, and what is proved of it says which table it
leaves, which pipes it has created and which children it has started (`Does`). The loop keeps the two
saved fids (`Saved`), and each turn hands the read end of its pipe on to the next (`Wired.cons`).
-/

set_option autoImplicit false

namespace TinyOS

open Transition Prog

/-- A file table. -/
abbrev Files := Int → Option OpenFile

def ValidFid (fd : Int) : Prop := 0 ≤ fd ∧ fd < MAX_FILEID

/-- A `Pipe` that succeeded: the pipe, and what the two fids denote. -/
structure PipeMade where
  pipe : Nat
  read : Option OpenFile
  write : Option OpenFile

/-- They denote the two ends of it. -/
def PipeMade.Ends (m : PipeMade) : Prop :=
  ∃ r w, m.read = some r ∧ r.stream = some (.reader m.pipe) ∧
    m.write = some w ∧ w.stream = some (.writer m.pipe)

/-- A child that was started, and its file table then. -/
structure Started where
  comd : Nat
  args : List CString
  table : Files

abbrev ShellEvent := Event Streams ShellCall.Reply

/-- The pipes that process `p` has created. -/
def pipesMade (p : Nat) (l : List ShellEvent) : List PipeMade :=
  l.filterMap fun
    | ⟨s, .pipe _, r, s'⟩ => some ⟨s.pipes, s'.table p r.2.read, s'.table p r.2.write⟩
    | _ => none

/-- The children that were started. -/
def childrenStarted (l : List ShellEvent) : List Started :=
  l.filterMap fun
    | ⟨_, .execute comd args, some q, s'⟩ => some ⟨comd, args, s'.table q⟩
    | _ => none

/-- `OpenNull`, `Pipe` and `Execute` succeed. -/
def succeeded : ShellEvent → Bool
  | ⟨_, .openNull, fid, _⟩ => fid.isSome
  | ⟨_, .pipe _, r, _⟩ => decide (r.1 = 0)
  | ⟨_, .execute _ _, child, _⟩ => child.isSome
  | _ => true

/-- The child of fragment `i` reads from the pipe of the fragment before it, and writes to the pipe
of its own; `input` and `output` are for the first and for the last. -/
structure Wired (input output : Option OpenFile) (line : List (List CString)) (ms : List PipeMade)
    (cs : List Started) : Prop where
  args : cs.map (·.args) = line
  comd : ∀ c ∈ cs, COMMANDS[c.comd]? = c.args.head?
  /-- Every fragment but the last has a pipe. -/
  pipes : ms.length + 1 = cs.length
  ends : ∀ m ∈ ms, m.Ends
  stdin : ∀ (i : Nat) (c : Started), cs[i]? = some c →
    c.table 0 = if i = 0 then input else ms[i - 1]?.bind (·.read)
  stdout : ∀ (i : Nat) (c : Started), cs[i]? = some c →
    c.table 1 = if i + 1 = cs.length then output else ms[i]?.bind (·.write)

namespace Streams

/-! ## The calls of a thread -/

/-- What a `Pipe` of process `p` leaves in a variable that holds `pipe`. `FCB_reserve` writes there
the fids that it finds, even if it fails in the end. -/
def writeFids (s : Streams) (p : Nat) (pipe : PipeT) : PipeT :=
  match s.findFids p 2 FileTables.fids with
  | [] => pipe
  | [i] => { pipe with read := i }
  | i :: j :: _ => ⟨i, j⟩

def pipeReply (s : Streams) (p : Nat) (pipe : PipeT) : Int × PipeT :=
  (if s.sysPipeAnswer p = .error then -1 else 0, s.writeFids p pipe)

def openNullReply (s : Streams) (p : Nat) : Option Int :=
  match s.openStreamAnswer p (some .null) with
  | .fids (i :: _) => some i
  | _ => none

/-- How a call of thread `u` may be served. What happens during a `WaitChild` or a `printf` are steps
of the system that change no fid of the process. -/
def serve (u : Nat) (s : Streams) : (c : ShellCall) → c.Reply → Streams → Prop
  | .openNull, fid, s' =>
    s.perform (.openNull u) = some s' ∧ fid = s.openNullReply (s.owner u)
  | .dup2 oldfd newfd, _, s' => s.perform (.dup2 u oldfd newfd) = some s'
  | .close fd, _, s' => s.perform (.close u fd) = some s'
  | .pipe pipe, r, s' =>
    ∃ malloc, s.perform (.pipe u malloc) = some s' ∧ r = s.pipeReply (s.owner u) pipe
  | .execute _ _, none, s' => s' = s
  | .execute _ _, some q, s' => s.perform (.exec u q true) = some s'
  | .waitChild _, _, s' => s' = s
  | .printf _, _, s' => s' = s

/-- A step that changes no fid of process `p`. -/
def other (p : Nat) (s s' : Streams) : Prop := ∃ a, ¬ s.changes a p ∧ s.perform a = some s'

/-- Thread `u` is a thread of the process `p`, whose file table is `T`. -/
structure Owns (s : Streams) (u p : Nat) (T : Files) : Prop where
  reach : streamSys.Reach s
  owner : s.owner u = p
  thread : u < s.threads
  alive : s.pstate p = .alive
  table : s.table p = T

variable {s s' : Streams} {a : StreamAction} {u p : Nat} {T T' B : Files}

theorem Owns.other (h : s.Owns u p T) (hs : Streams.other p s s') : s'.Owns u p T := by
  obtain ⟨a, ha, hs⟩ := hs
  obtain ⟨R, hR⟩ := covered h.reach
  have hw := within_perform hR hs
  exact ⟨h.reach.next hs, (hw.owner u h.thread).trans h.owner, lt_of_lt_of_le h.thread hw.threads,
    hw.alive p ha h.alive, (hw.table p ha).trans h.table⟩

/-- It makes a call, and its process stays alive. -/
theorem Owns.call (h : s.Owns u p T) (hs : s.perform a = some s') (halive : s'.pstate p = .alive)
    (htable : s'.table p = T') : s'.Owns u p T' := by
  obtain ⟨R, hR⟩ := covered h.reach
  have hw := within_perform hR hs
  exact ⟨h.reach.next hs, (hw.owner u h.thread).trans h.owner, lt_of_lt_of_le h.thread hw.threads,
    halive, htable⟩

theorem Owns.dup2 (h : s.Owns u p T) {oldfd newfd : Int} (hold : ValidFid oldfd)
    (hnew : ValidFid newfd) (hopen : T oldfd ≠ none)
    (hs : s.perform (.dup2 u oldfd newfd) = some s') :
    s'.Owns u p (Function.update T newfd (T oldfd)) := by
  have hcall : s.sysDup2 (s.owner u) oldfd newfd = some s' := perform_call rfl hs
  obtain ⟨rfl, rfl⟩ := And.intro h.owner h.table
  refine h.call hs ?_ (table_sysDup2 hold hnew hopen hcall)
  rw [pstate_sysDup2 hcall, h.alive]

theorem Owns.close (h : s.Owns u p T) {fd : Int} (hfd : ValidFid fd)
    (hs : s.perform (.close u fd) = some s') : s'.Owns u p (Function.update T fd none) := by
  have hcall : s.sysClose (s.owner u) fd = some s' := perform_call rfl hs
  obtain ⟨rfl, rfl⟩ := And.intro h.owner h.table
  refine h.call hs ?_ (table_sysClose hfd hcall)
  rw [pstate_sysClose hcall, h.alive]

theorem table_none {i : Int} (h : s.FIDT p i = none) : s.table p i = none := by
  rw [table, h]
  rfl

theorem openStreamAnswer_of_reply {i : Int} (h : s.openNullReply p = some i) :
    s.openStreamAnswer p (some .null) = .fids [i] := by
  unfold openNullReply at h
  unfold openStreamAnswer at h ⊢
  obtain ⟨t, hr⟩ | ⟨fid, f, t, hr, -⟩ := s.reserveFCB_one_cases p
  · rw [hr] at h
    cases h
  · rw [hr] at h ⊢
    cases h
    rfl

theorem Owns.openNull (h : s.Owns u p T) {i : Int} (hi : s.openNullReply (s.owner u) = some i)
    (hs : s.perform (.openNull u) = some s') :
    ValidFid i ∧ T i = none ∧ ∃ file, s'.Owns u p (Function.update T i (some file)) := by
  obtain ⟨R, hR⟩ := covered h.reach
  have hcall : some (s.openStream (s.owner u) (some .null)) = some s' := perform_call rfl hs
  obtain ⟨hfree, file, htable⟩ := hR.table_openStream (openStreamAnswer_of_reply hi)
  obtain ⟨rfl, rfl⟩ := And.intro h.owner h.table
  obtain rfl := Option.some.inj hcall
  refine ⟨⟨hfree.1, hfree.2.1⟩, table_none hfree.2.2, file, h.call hs ?_ htable⟩
  rw [pstate_openStream, h.alive]

/-- The two fids that a `Pipe` returns are those that it found. -/
theorem sysPipeAnswer_of_reply {pipe : PipeT} (h : (s.pipeReply p pipe).1 = 0) :
    ∃ i j, s.sysPipeAnswer p = .fids [i, j] ∧ (s.pipeReply p pipe).2 = ⟨i, j⟩ := by
  have hans : s.sysPipeAnswer p ≠ .error := by
    intro he
    rw [pipeReply, if_pos he] at h
    cases h
  unfold sysPipeAnswer at hans ⊢
  obtain ⟨t, hr⟩ | ⟨i, f, j, g, t, hr⟩ := s.reserveFCB_two_cases p
  · rw [hr] at hans
    exact absurd rfl hans
  · refine ⟨i, j, by rw [hr]; rfl, ?_⟩
    have hfound : s.findFids p 2 FileTables.fids = [i, j] := FileTables.findFids_of_reserve hr
    show s.writeFids p pipe = _
    rw [writeFids, hfound]

theorem Owns.pipe (h : s.Owns u p T) {pipe : PipeT} {malloc : Bool}
    (hok : (s.pipeReply (s.owner u) pipe).1 = 0) (hs : s.perform (.pipe u malloc) = some s') :
    ∃ i j r w, (s.pipeReply (s.owner u) pipe).2 = ⟨i, j⟩ ∧ ValidFid i ∧ ValidFid j ∧
      T i = none ∧ T j = none ∧ i ≠ j ∧
      r.stream = some (.reader s.pipes) ∧ w.stream = some (.writer s.pipes) ∧
      s'.Owns u p (Function.update (Function.update T i (some r)) j (some w)) := by
  obtain ⟨R, hR⟩ := covered h.reach
  have hcall : s.sysPipe (s.owner u) malloc = some s' := perform_call rfl hs
  obtain ⟨i, j, hans, hpipe⟩ := sysPipeAnswer_of_reply hok
  obtain ⟨hi, hj, hne, r, w, hr, hw, htable⟩ := hR.table_sysPipe hans hcall
  obtain ⟨rfl, rfl⟩ := And.intro h.owner h.table
  refine ⟨i, j, r, w, hpipe, ⟨hi.1, hi.2.1⟩, ⟨hj.1, hj.2.1⟩, table_none hi.2.2, table_none hj.2.2,
    hne, hr, hw, h.call hs ?_ htable⟩
  rw [pstate_sysPipe hcall, h.alive]

/-- The child has the files that the shell has. -/
theorem Owns.exec (h : s.Owns u p T) {q : Nat} {call : Bool}
    (hs : s.perform (.exec u q call) = some s') :
    s'.Owns u p T ∧ ∀ i, ValidFid i → s'.table q i = T i := by
  obtain ⟨R, hR⟩ := covered h.reach
  obtain ⟨hq, hcall⟩ := Option.ite_none_right_eq_some.mp (perform_call rfl hs)
  have hcall : s.sysExec (s.owner u) q call = s' := Option.some.inj hcall
  obtain ⟨rfl, rfl⟩ := And.intro h.owner h.table
  have hne : s.owner u ≠ q := fun he => by
    rw [← he, h.alive] at hq
    cases hq
  have hw : Within (fun r => r = q) s s' := hcall ▸ hR.sysExec (s.owner u) q call
  refine ⟨h.call hs (hw.alive _ hne h.alive) (hw.table _ hne), fun i hi => ?_⟩
  rw [← hcall]
  exact table_sysExec hne call hi

end Streams

/-! ## Programs on a table -/

variable {u p : Nat} {T T₁ B : Files} {α β : Type}
  {φ : List PipeMade → List Started → α → Files → Prop}
  {ψ : List PipeMade → List Started → β → Files → Prop}

/-- Run by thread `u` of process `p`, whose table is `T`, the program creates pipes `ms`, starts
children `cs`, ends with `a` and leaves a table `T'` such that `φ ms cs a T'`. -/
def Does (u p : Nat) (T : Files) (prog : ShellProg α)
    (φ : List PipeMade → List Started → α → Files → Prop) : Prop :=
  Triple (Streams.serve u) (Streams.other p) (fun e => succeeded e) (fun s => s.Owns u p T) prog
    fun l a s => ∃ T', φ (pipesMade p l) (childrenStarted l) a T' ∧ s.Owns u p T'

/-- It leaves the table `T'`, without a pipe or a child. -/
def Leaves {α : Type} (T' : Files) (ms : List PipeMade) (cs : List Started) (_ : α) (T : Files) :
    Prop :=
  ms = [] ∧ cs = [] ∧ T = T'

theorem stable_owns : Stable (Streams.other p) fun s => s.Owns u p T :=
  fun _ _ h hs => h.other hs

theorem stable_does {φ : Files → Prop} :
    Stable (Streams.other p) fun s => ∃ T', φ T' ∧ s.Owns u p T' := by
  intro s s' ⟨T', hφ, h⟩ hs
  exact ⟨T', hφ, h.other hs⟩

theorem Does.pure {a : α} (h : φ [] [] a T) : Does u p T (pure a) φ := by
  refine Triple.mono (Triple.pure stable_owns a) (fun _ hs => hs) fun l b s hl => ?_
  obtain ⟨rfl, rfl, hs⟩ := hl
  exact ⟨T, h, hs⟩

/-- One call. -/
theorem Does.make {c : ShellCall} {φ : List PipeMade → List Started → c.Reply → Files → Prop}
    (h : ∀ s r s', s.Owns u p T → Streams.serve u s c r s' → succeeded ⟨s, c, r, s'⟩ →
      ∃ T', φ (pipesMade p [⟨s, c, r, s'⟩]) (childrenStarted [⟨s, c, r, s'⟩]) r T' ∧
        s'.Owns u p T') : Does u p T (make c) φ := by
  refine Triple.mono (Triple.make (Q := fun e r s => ∃ T', φ (pipesMade p [e]) (childrenStarted [e])
    r T' ∧ s.Owns u p T') stable_owns (fun e r => stable_does) h) (fun _ hs => hs) fun l r s hl => ?_
  obtain ⟨e, rfl, hs⟩ := hl
  exact hs

theorem Does.bind {prog : ShellProg α} {f : α → ShellProg β} (h : Does u p T prog φ)
    (hf : ∀ ms cs a T₁, φ ms cs a T₁ →
      Does u p T₁ (f a) fun ms' cs' b T' => ψ (ms ++ ms') (cs ++ cs') b T') :
    Does u p T (prog >>= f) ψ := by
  refine Triple.bind h fun l a => Triple.of_exists fun T₁ => Triple.of_fact fun hφ => ?_
  refine Triple.mono (hf _ _ a T₁ hφ) (fun _ hs => hs) fun l' b s hs => ?_
  rw [pipesMade, childrenStarted, List.filterMap_append, List.filterMap_append]
  exact hs

/-- Something that only changes the table comes first. -/
theorem Does.bind_leaves {prog : ShellProg α} {f : α → ShellProg β}
    (h : Does u p T prog (Leaves T₁)) (hf : ∀ a, Does u p T₁ (f a) ψ) :
    Does u p T (prog >>= f) ψ := by
  refine h.bind fun ms cs a T₂ hT => ?_
  obtain ⟨rfl, rfl, rfl⟩ := hT
  exact hf a

/-- A fid that is free is none that is open. -/
theorem ne_of_free {i j : Int} (hfree : T i = none) (hopen : T j ≠ none) : i ≠ j := by
  rintro rfl
  exact hopen hfree

theorem PipeMade.Ends.isOpen {m : PipeMade} (h : m.Ends) : m.read ≠ none ∧ m.write ≠ none := by
  obtain ⟨r, w, hr, -, hw, -⟩ := h
  simp [hr, hw]

/-! ### The calls -/

variable {oldfd newfd savein saveout : Int}

theorem does_dup2 (hold : ValidFid oldfd) (hnew : ValidFid newfd) (hopen : T oldfd ≠ none) :
    Does u p T (Shell.dup2 oldfd newfd) (Leaves (Function.update T newfd (T oldfd))) :=
  .make fun _ _ _ hs hserve _ => ⟨_, ⟨rfl, rfl, rfl⟩, hs.dup2 hold hnew hopen hserve⟩

theorem does_close {fd : Int} (hfd : ValidFid fd) :
    Does u p T (Shell.close fd) (Leaves (Function.update T fd none)) :=
  .make fun _ _ _ hs hserve _ => ⟨_, ⟨rfl, rfl, rfl⟩, hs.close hfd hserve⟩

theorem does_waitChild (pid : Option Nat) : Does u p T (Shell.waitChild pid) (Leaves T) := by
  refine .make fun s _ s' hs hserve _ => ⟨T, ⟨rfl, rfl, rfl⟩, ?_⟩
  obtain rfl : s' = s := hserve
  exact hs

theorem does_printf (text : List UInt8) : Does u p T (Shell.printf text) (Leaves T) := by
  refine .make fun s _ s' hs hserve _ => ⟨T, ⟨rfl, rfl, rfl⟩, ?_⟩
  obtain rfl : s' = s := hserve
  exact hs

theorem does_openNull : Does u p T Shell.openNull fun ms cs r T' =>
    ∃ i file, r = some i ∧ ValidFid i ∧ T i = none ∧
      Leaves (Function.update T i (some file)) ms cs r T' := by
  refine .make fun s r s' hs hserve hok => ?_
  obtain ⟨hperform, hr⟩ := hserve
  obtain ⟨i, rfl⟩ := Option.isSome_iff_exists.mp hok
  obtain ⟨hi, hfree, file, hs'⟩ := hs.openNull hr.symm hperform
  exact ⟨_, ⟨i, file, rfl, hi, hfree, rfl, rfl, rfl⟩, hs'⟩

/-- The pipe `m` has its ends at the two fids of `pipe`, which were free. -/
structure Opened (T : Files) (pipe : PipeT) (m : PipeMade) (T' : Files) : Prop where
  read : ValidFid pipe.read ∧ T pipe.read = none
  write : ValidFid pipe.write ∧ T pipe.write = none
  distinct : pipe.read ≠ pipe.write
  ends : m.Ends
  table : T' = Function.update (Function.update T pipe.read m.read) pipe.write m.write

theorem does_pipe (pipe : PipeT) : Does u p T (Shell.pipe pipe) fun ms cs r T' =>
    ∃ m, ms = [m] ∧ cs = [] ∧ Opened T r.2 m T' := by
  refine Does.make fun s r s' hs hserve hok => ?_
  obtain ⟨malloc, hperform, rfl⟩ := hserve
  obtain ⟨i, j, r, w, hpipe, hi, hj, hTi, hTj, hne, hr, hw, hs'⟩ :=
    hs.pipe (of_decide_eq_true hok) hperform
  have hread : s'.table p i = some r := by
    rw [hs'.table, Function.update_of_ne hne, Function.update_self]
  have hwrite : s'.table p j = some w := by
    rw [hs'.table, Function.update_self]
  refine ⟨_, ⟨⟨s.pipes, some r, some w⟩, ?_, rfl, ?_⟩, hs'⟩
  · show [PipeMade.mk s.pipes _ _] = _
    rw [hpipe, hread, hwrite]
  · rw [hpipe]
    exact ⟨⟨hi, hTi⟩, ⟨hj, hTj⟩, hne, ⟨r, w, rfl, hr, rfl, hw⟩, rfl⟩

theorem does_execute (comd : Nat) (args : List CString) :
    Does u p T (Shell.execute comd args) fun ms cs _ T' =>
      ∃ c : Started, c.comd = comd ∧ c.args = args ∧ (∀ i, ValidFid i → c.table i = T i) ∧
        ms = [] ∧ cs = [c] ∧ T' = T := by
  refine .make fun s r s' hs hserve hok => ?_
  obtain ⟨q, rfl⟩ := Option.isSome_iff_exists.mp hok
  obtain ⟨hs', htable⟩ := hs.exec hserve
  exact ⟨T, ⟨⟨comd, args, s'.table q⟩, rfl, rfl, htable, rfl, rfl, rfl⟩, hs'⟩

/-! ### The functions -/

theorem does_replaceFid (hold : ValidFid oldfd) (hnew : ValidFid newfd) (hopen : T oldfd ≠ none) :
    Does u p T (replaceFid oldfd newfd)
      (Leaves (Function.update (Function.update T newfd (T oldfd)) oldfd none)) :=
  (does_dup2 hold hnew hopen).bind_leaves fun _ => does_close hold

/-- The stream of `fsaved` is open at a fid that was free. -/
theorem does_savefid {fsaved : Int} (hvalid : ValidFid fsaved) (hopen : T fsaved ≠ none) :
    Does u p T (savefid fsaved) fun ms cs savior T' =>
      ValidFid savior ∧ T savior = none ∧
        Leaves (Function.update T savior (T fsaved)) ms cs savior T' := by
  refine does_openNull.bind fun ms cs r T₁ hr => ?_
  obtain ⟨i, file, rfl, hi, hfree, rfl, rfl, rfl⟩ := hr
  have hne : fsaved ≠ i := (ne_of_free hfree hopen).symm
  have hsaved : Function.update T i (some file) fsaved = T fsaved := Function.update_of_ne hne ..
  refine (does_dup2 hvalid hi (by rwa [hsaved])).bind_leaves fun _ => ?_
  refine .pure ⟨hi, hfree, rfl, rfl, ?_⟩
  rw [hsaved, Function.update_idem]

theorem does_waitLoop (children : List (Fragment × Option Nat)) :
    Does u p T (waitLoop children) (Leaves T) := by
  induction children with
  | nil => exact .pure ⟨rfl, rfl, rfl⟩
  | cons child children ih =>
    obtain ⟨f, child⟩ := child
    refine (does_waitChild child).bind_leaves fun exitval => ?_
    split
    · exact (does_printf _).bind_leaves fun _ => ih
    · exact ih

/-! ### A turn of the loop -/

theorem validFid_stdin : ValidFid 0 := ⟨by decide, by decide⟩

theorem validFid_stdout : ValidFid 1 := ⟨by decide, by decide⟩

/-- A stream that is moved away from a fid that was free. -/
theorem update_move {i j : Int} (hfree : T i = none) (hne : i ≠ j) (x : Option OpenFile) :
    Function.update (Function.update (Function.update T i x) j x) i none = Function.update T j x := by
  rw [Function.update_comm hne, Function.update_idem, ← hfree]
  rw [Function.update_comm hne.symm, Function.update_eq_self]

/-- Any turn but the last leaves the ends of its pipe at fids 0 and 1. -/
theorem does_startFragment (hin : T 0 ≠ none) (hout : T 1 ≠ none) (f : Fragment) (pipe : PipeT) :
    Does u p T (startFragment savein saveout false f pipe) fun ms cs _ T' =>
      ∃ m c, ms = [m] ∧ cs = [c] ∧ m.Ends ∧ c.comd = f.comd ∧ c.args = f.args ∧
        c.table 0 = T 0 ∧ c.table 1 = m.write ∧
        T' = Function.update (Function.update T 1 m.write) 0 m.read := by
  have hprog : startFragment savein saveout false f pipe = (do
      let made ← Shell.pipe pipe
      replaceFid made.2.write 1
      let child ← Shell.execute f.comd f.args
      replaceFid made.2.read 0
      return (child, made.2)) := rfl
  rw [hprog]
  refine (does_pipe pipe).bind fun ms cs made T₁ h => ?_
  obtain ⟨m, rfl, rfl, h⟩ := h
  have hread₀ : made.2.read ≠ 0 := ne_of_free h.read.2 hin
  have hread₁ : made.2.read ≠ 1 := ne_of_free h.read.2 hout
  have hwrite₁ : made.2.write ≠ 1 := ne_of_free h.write.2 hout
  -- The write end moves to fid 1, and the read end stays where it is.
  have hT₁ : T₁ made.2.write = m.write := by rw [h.table, Function.update_self]
  have hmoved : Function.update (Function.update T₁ 1 (T₁ made.2.write)) made.2.write none =
      Function.update (Function.update T 1 m.write) made.2.read m.read := by
    rw [hT₁, h.table, update_move (by rw [Function.update_of_ne h.distinct.symm, h.write.2]) hwrite₁,
      Function.update_comm hread₁]
  refine (does_replaceFid h.write.1 validFid_stdout (hT₁ ▸ h.ends.isOpen.2)).bind_leaves
    fun _ => ?_
  rw [hmoved]
  refine (does_execute f.comd f.args).bind fun ms cs child T₂ hchild => ?_
  obtain ⟨c, hcomd, hargs, htable, rfl, rfl, rfl⟩ := hchild
  have hread : Function.update (Function.update T 1 m.write) made.2.read m.read made.2.read ≠
      none := by
    rw [Function.update_self]
    exact h.ends.isOpen.1
  refine (does_replaceFid h.read.1 validFid_stdin hread).bind_leaves fun _ => ?_
  refine .pure ⟨m, c, rfl, rfl, h.ends, hcomd, hargs, ?_, ?_, ?_⟩
  · rw [htable 0 validFid_stdin, Function.update_of_ne hread₀.symm,
      Function.update_of_ne (by decide)]
  · rw [htable 1 validFid_stdout, Function.update_of_ne hread₁.symm, Function.update_self]
  · rw [Function.update_self, update_move (by rw [Function.update_of_ne hread₁, h.read.2]) hread₀]

/-- Inside of the loop, the streams of fids 0 and 1 are saved at two others. -/
structure Saved (B T : Files) (savein saveout : Int) : Prop where
  valid : ValidFid savein ∧ ValidFid saveout
  distinct : savein ≠ saveout
  input : B savein = none ∧ T savein = B 0
  output : B saveout = none ∧ T saveout = B 1
  standard : B 0 ≠ none ∧ B 1 ≠ none
  overwritten : T 0 ≠ none ∧ T 1 ≠ none
  others : ∀ i, i ≠ 0 → i ≠ 1 → i ≠ savein → i ≠ saveout → T i = B i

theorem Saved.ne (h : Saved B T savein saveout) :
    savein ≠ 0 ∧ savein ≠ 1 ∧ saveout ≠ 0 ∧ saveout ≠ 1 :=
  ⟨ne_of_free h.input.1 h.standard.1, ne_of_free h.input.1 h.standard.2,
    ne_of_free h.output.1 h.standard.1, ne_of_free h.output.1 h.standard.2⟩

/-- The loop overwrites fids 0 and 1 only. -/
theorem Saved.overwrite (h : Saved B T savein saveout) {r w : Option OpenFile} (hr : r ≠ none)
    (hw : w ≠ none) :
    Saved B (Function.update (Function.update T 1 w) 0 r) savein saveout := by
  obtain ⟨hin₀, hin₁, hout₀, hout₁⟩ := h.ne
  have hkeep : ∀ i, i ≠ 0 → i ≠ 1 → Function.update (Function.update T 1 w) 0 r i = T i :=
    fun i h₀ h₁ => by rw [Function.update_of_ne h₀, Function.update_of_ne h₁]
  refine ⟨h.valid, h.distinct, ⟨h.input.1, ?_⟩, ⟨h.output.1, ?_⟩, h.standard, ⟨?_, ?_⟩,
    fun i h₀ h₁ hi ho => ?_⟩
  · rw [hkeep _ hin₀ hin₁, h.input.2]
  · rw [hkeep _ hout₀ hout₁, h.output.2]
  · rwa [Function.update_self]
  · rwa [Function.update_of_ne (by decide), Function.update_self]
  · rw [hkeep i h₀ h₁, h.others i h₀ h₁ hi ho]

/-- Once they are moved back, the table is what it was. -/
theorem Saved.restored (h : Saved B T savein saveout) :
    Function.update (Function.update (Function.update (Function.update T 1 (B 1)) saveout none) 0
      (B 0)) savein none = B := by
  obtain ⟨hin₀, hin₁, hout₀, hout₁⟩ := h.ne
  funext i
  by_cases hi : i = savein
  · rw [hi, Function.update_self, h.input.1]
  rw [Function.update_of_ne hi]
  by_cases h₀ : i = 0
  · rw [h₀, Function.update_self]
  rw [Function.update_of_ne h₀]
  by_cases ho : i = saveout
  · rw [ho, Function.update_self, h.output.1]
  rw [Function.update_of_ne ho]
  by_cases h₁ : i = 1
  · rw [h₁, Function.update_self]
  · rw [Function.update_of_ne h₁, h.others i h₀ h₁ hi ho]

/-- The last turn puts the saved streams back. -/
theorem does_startFragment_last (h : Saved B T savein saveout) (f : Fragment) (pipe : PipeT) :
    Does u p T (startFragment savein saveout true f pipe) fun ms cs _ T' =>
      ∃ c, ms = [] ∧ cs = [c] ∧ c.comd = f.comd ∧ c.args = f.args ∧
        c.table 0 = T 0 ∧ c.table 1 = B 1 ∧ T' = B := by
  have hprog : startFragment savein saveout true f pipe = (do
      replaceFid saveout 1
      let child ← Shell.execute f.comd f.args
      replaceFid savein 0
      return (child, pipe)) := rfl
  rw [hprog]
  obtain ⟨hin₀, hin₁, hout₀, hout₁⟩ := h.ne
  refine (does_replaceFid h.valid.2 validFid_stdout (h.output.2 ▸ h.standard.2)).bind_leaves
    fun _ => ?_
  refine (does_execute f.comd f.args).bind fun ms cs child T₂ hchild => ?_
  obtain ⟨c, hcomd, hargs, htable, rfl, rfl, rfl⟩ := hchild
  rw [h.output.2] at htable ⊢
  have hsaved : Function.update (Function.update T 1 (B 1)) saveout none savein = B 0 := by
    rw [Function.update_of_ne h.distinct, Function.update_of_ne hin₁, h.input.2]
  refine (does_replaceFid h.valid.1 validFid_stdin (hsaved ▸ h.standard.1)).bind_leaves fun _ => ?_
  refine .pure ⟨c, rfl, rfl, hcomd, hargs, ?_, ?_, ?_⟩
  · rw [htable 0 validFid_stdin, Function.update_of_ne hout₀.symm,
      Function.update_of_ne (by decide)]
  · rw [htable 1 validFid_stdout, Function.update_of_ne hout₁.symm, Function.update_self]
  · rw [hsaved]
    exact h.restored

/-! ### The loop -/

variable {input output : Option OpenFile} {line : List (List CString)} {ms : List PipeMade}
  {cs : List Started} {m : PipeMade} {c : Started}

/-- One fragment. -/
theorem Wired.last (hc : COMMANDS[c.comd]? = c.args.head?) (h₀ : c.table 0 = input)
    (h₁ : c.table 1 = output) : Wired input output [c.args] [] [c] where
  args := rfl
  comd c' hc' := List.mem_singleton.mp hc' ▸ hc
  pipes := rfl
  ends m hm := absurd hm List.not_mem_nil
  stdin i c' hc' := by
    obtain ⟨hi, rfl⟩ := List.getElem?_eq_some_iff.mp hc'
    obtain rfl : i = 0 := Nat.lt_one_iff.mp hi
    exact h₀
  stdout i c' hc' := by
    obtain ⟨hi, rfl⟩ := List.getElem?_eq_some_iff.mp hc'
    obtain rfl : i = 0 := Nat.lt_one_iff.mp hi
    exact h₁

/-- A fragment comes before the others, which read from its pipe. -/
theorem Wired.cons (h : Wired m.read output line ms cs) (hc : COMMANDS[c.comd]? = c.args.head?)
    (hm : m.Ends) (h₀ : c.table 0 = input) (h₁ : c.table 1 = m.write) :
    Wired input output (c.args :: line) (m :: ms) (c :: cs) where
  args := by rw [List.map_cons, h.args]
  comd c' hc' := by
    rcases List.mem_cons.mp hc' with rfl | hc'
    · exact hc
    · exact h.comd c' hc'
  pipes := by rw [List.length_cons, List.length_cons, h.pipes]
  ends m' hm' := by
    rcases List.mem_cons.mp hm' with rfl | hm'
    · exact hm
    · exact h.ends m' hm'
  stdin i c' hc' := by
    cases i with
    | zero =>
      obtain rfl : c = c' := Option.some.inj hc'
      exact h₀
    | succ i =>
      rw [h.stdin i c' hc', if_neg (Nat.succ_ne_zero i), Nat.add_sub_cancel]
      cases i with
      | zero => rfl
      | succ i => rw [if_neg (Nat.succ_ne_zero i), Nat.add_sub_cancel, List.getElem?_cons_succ]
  stdout i c' hc' := by
    cases i with
    | zero =>
      obtain rfl : c = c' := Option.some.inj hc'
      have hmore : ¬ (0 + 1 = (c :: cs).length) := by
        rw [List.length_cons, ← h.pipes]
        omega
      rw [h₁, if_neg hmore]
      rfl
    | succ i =>
      rw [h.stdout i c' hc', List.length_cons, List.getElem?_cons_succ]
      simp only [Nat.add_right_cancel_iff]

/-- **The pipeline is wired, and all fids are as they were** before `savefid`. -/
theorem does_startLoop (h : Saved B T savein saveout) {fs : List Fragment} (hne : fs ≠ [])
    (hcomd : ∀ f ∈ fs, COMMANDS[f.comd]? = f.args.head?) (pipe : PipeT) :
    Does u p T (startLoop savein saveout fs pipe) fun ms cs _ T' =>
      Wired (T 0) (B 1) (fs.map (·.args)) ms cs ∧ T' = B := by
  induction fs generalizing T pipe with
  | nil => exact absurd rfl hne
  | cons f fs ih =>
    have hf : ∀ c : Started, c.comd = f.comd → c.args = f.args →
        COMMANDS[c.comd]? = c.args.head? := by
      intro c hc hargs
      rw [hc, hargs]
      exact hcomd f List.mem_cons_self
    cases fs with
    | nil =>
      refine (does_startFragment_last h f pipe).bind fun ms cs r T₁ hturn => ?_
      obtain ⟨c, rfl, rfl, hc, hargs, h₀, h₁, rfl⟩ := hturn
      refine .pure ⟨?_, rfl⟩
      rw [List.map_singleton, ← hargs]
      exact .last (hf c hc hargs) h₀ h₁
    | cons f' fs =>
      refine (does_startFragment h.overwritten.1 h.overwritten.2 f pipe).bind
        fun ms cs r T₁ hturn => ?_
      obtain ⟨m, c, rfl, rfl, hm, hc, hargs, h₀, h₁, rfl⟩ := hturn
      have hrest := ih (h.overwrite hm.isOpen.1 hm.isOpen.2) (List.cons_ne_nil f' fs)
        (fun g hg => hcomd g (List.mem_cons_of_mem f hg)) r.2
      refine hrest.bind fun ms cs children T₂ hwired => ?_
      obtain ⟨hwired, rfl⟩ := hwired
      rw [Function.update_self] at hwired
      refine .pure ⟨?_, rfl⟩
      rw [List.append_nil, List.append_nil, List.map_cons, ← hargs]
      exact hwired.cons (hf c hc hargs) hm h₀ h₁

theorem does_runPipeline (hin : T 0 ≠ none) (hout : T 1 ≠ none) {fs : List Fragment} (hne : fs ≠ [])
    (hcomd : ∀ f ∈ fs, COMMANDS[f.comd]? = f.args.head?) (pipe : PipeT) :
    Does u p T (runPipeline fs pipe) fun ms cs _ T' =>
      Wired (T 0) (T 1) (fs.map (·.args)) ms cs ∧ T' = T := by
  refine (does_savefid validFid_stdin hin).bind fun ms cs savein T₁ h => ?_
  obtain ⟨hi, hfree, rfl, rfl, rfl⟩ := h
  have hin₀ : savein ≠ 0 := ne_of_free hfree hin
  have hin₁ : savein ≠ 1 := ne_of_free hfree hout
  have hT₁ : Function.update T savein (T 0) 1 = T 1 := Function.update_of_ne hin₁.symm ..
  refine (does_savefid validFid_stdout (hT₁ ▸ hout)).bind fun ms cs saveout T₂ h => ?_
  obtain ⟨ho, hfree', rfl, rfl, rfl⟩ := h
  have hdistinct : savein ≠ saveout := by
    intro he
    rw [← he, Function.update_self] at hfree'
    exact hin hfree'
  rw [Function.update_of_ne hdistinct.symm] at hfree'
  have hout₀ : saveout ≠ 0 := ne_of_free hfree' hin
  have hout₁ : saveout ≠ 1 := ne_of_free hfree' hout
  rw [hT₁]
  have hkeep : ∀ i, i ≠ savein → i ≠ saveout →
      Function.update (Function.update T savein (T 0)) saveout (T 1) i = T i :=
    fun i hi ho => by rw [Function.update_of_ne ho, Function.update_of_ne hi]
  have hsaved : Saved T (Function.update (Function.update T savein (T 0)) saveout (T 1)) savein
      saveout := by
    refine ⟨⟨hi, ho⟩, hdistinct, ⟨hfree, ?_⟩, ⟨hfree', Function.update_self ..⟩, ⟨hin, hout⟩, ⟨?_, ?_⟩,
      fun i _ _ hi ho => hkeep i hi ho⟩
    · rw [Function.update_of_ne hdistinct, Function.update_self]
    · rwa [hkeep 0 hin₀.symm hout₀.symm]
    · rwa [hkeep 1 hin₁.symm hout₁.symm]
  refine (does_startLoop hsaved hne hcomd pipe).bind fun ms cs children T₃ h => ?_
  obtain ⟨hwired, rfl⟩ := h
  rw [hkeep 0 hin₀.symm hout₀.symm] at hwired
  refine (does_waitLoop _).bind_leaves fun _ => ?_
  refine .pure ⟨?_, rfl⟩
  simpa using hwired

/-- The fragments that pass the checks. -/
theorem checkPieces_ok {ps : List (List CString)} {fs : List Fragment}
    (h : checkPieces ps = .ok fs) :
    fs.map (·.args) = ps ∧ ∀ f ∈ fs, COMMANDS[f.comd]? = f.args.head? := by
  induction ps generalizing fs with
  | nil =>
    cases h
    exact ⟨rfl, fun f hf => absurd hf List.not_mem_nil⟩
  | cons piece ps ih =>
    cases piece with
    | nil => cases h
    | cons name args =>
      rw [checkPieces] at h
      cases hfind : COMMANDS.findIdx? (fun cmdname => cmdname = name) with
      | none =>
        rw [hfind] at h
        cases h
      | some comd =>
        rw [hfind] at h
        cases hrest : checkPieces ps with
        | error text =>
          rw [hrest] at h
          cases h
        | ok fs' =>
          rw [hrest] at h
          obtain rfl : ⟨comd, name :: args⟩ :: fs' = fs := Except.ok.inj h
          obtain ⟨hargs, hcomd⟩ := ih hrest
          refine ⟨by rw [List.map_cons, hargs], fun f hf => ?_⟩
          rcases List.mem_cons.mp hf with rfl | hf
          · obtain ⟨hlt, hname, -⟩ := List.findIdx?_eq_some_iff_getElem.mp hfind
            rw [List.getElem?_eq_getElem hlt]
            exact congrArg some (of_decide_eq_true hname)
          · exact hcomd f hf

/-- The calls of thread `u` are served at once, and a child gets a PCB that was never used. -/
def Streams.handle (u : Nat) : (c : ShellCall) → Streams → Option (c.Reply × Streams)
  | .openNull, s => (s.perform (.openNull u)).map fun s' => (s.openNullReply (s.owner u), s')
  | .dup2 oldfd newfd, s => (s.perform (.dup2 u oldfd newfd)).map fun s' => ((), s')
  | .close fd, s => (s.perform (.close u fd)).map fun s' => ((), s')
  | .pipe pipe, s => (s.perform (.pipe u true)).map fun s' => (s.pipeReply (s.owner u) pipe, s')
  | .execute _ _, s =>
    (s.perform (.exec u (s.threads + 1) true)).map fun s' => (some (s.threads + 1), s')
  | .waitChild _, s => some (0, s)
  | .printf _, s => some ((), s)

theorem Streams.serve_of_handle {u : Nat} (c : ShellCall) (s : Streams) (r : c.Reply) (s' : Streams)
    (h : Streams.handle u c s = some (r, s')) : s.serve u c r s' := by
  cases c with
  | openNull =>
    obtain ⟨t, ht, he⟩ := Option.map_eq_some_iff.mp h
    cases he
    exact ⟨ht, rfl⟩
  | dup2 | close =>
    obtain ⟨t, ht, he⟩ := Option.map_eq_some_iff.mp h
    cases he
    exact ht
  | pipe pipe =>
    obtain ⟨t, ht, he⟩ := Option.map_eq_some_iff.mp h
    cases he
    exact ⟨true, ht, rfl⟩
  | execute comd args =>
    obtain ⟨t, ht, he⟩ := Option.map_eq_some_iff.mp h
    cases he
    exact ht
  | waitChild | printf =>
    cases h
    rfl

/-- **A line that passes the checks is wired as it says, and leaves the files of the shell alone.** -/
theorem line_wired (argv : List CString) (Vargc : List Int) (Vargv : List Nat) (pipe : PipeT)
    (hc : Vargc.length = argv.length) (hv : Vargv.length = argv.length) (prog : ShellProg Int)
    (hprog : processLine argv Vargc Vargv pipe = some prog) (hpass : ¬ Rejects prog) (s : Streams)
    (hr : streamSys.Reach s) (u : Nat) (hu : s.pc u = .running)
    (halive : s.pstate (s.owner u) = .alive) (hin : s.table (s.owner u) 0 ≠ none)
    (hout : s.table (s.owner u) 1 ≠ none) (l : List ShellEvent) (ret : Int) (s' : Streams)
    (hrun : Runs (Streams.serve u) (Streams.other (s.owner u)) prog s l ret s')
    (hok : ∀ e ∈ l, succeeded e) :
    Wired (s.table (s.owner u) 0) (s.table (s.owner u) 1) (pieces argv)
      (pipesMade (s.owner u) l) (childrenStarted l) ∧
      s'.table (s.owner u) = s.table (s.owner u) := by
  have hword : ∃ token ∈ argv, token ≠ bar := by
    by_contra hbars
    have hall : ∀ token ∈ argv, token = bar := by
      intro token hm
      by_contra hne
      exact hbars ⟨token, hm, hne⟩
    rw [processLine, splitLine_none hall hc Vargv] at hprog
    cases hprog
  obtain rfl : respond pipe (checkPieces (pieces argv)) = prog :=
    Option.some.inj ((processLine_eq hword hc hv pipe).symm.trans hprog)
  rw [rejects_respond_iff] at hpass
  cases hcheck : checkPieces (pieces argv) with
  | error text => exact absurd ⟨text, hcheck⟩ hpass
  | ok fs =>
    rw [hcheck] at hrun
    obtain ⟨hargs, hcomd⟩ := checkPieces_ok hcheck
    have hne : fs ≠ [] := by
      rintro rfl
      exact List.splitOn_ne_nil bar argv hargs.symm
    have hthread : u < s.threads := by
      by_contra hlt
      have hborn : (s.pc u).socketPc = .unborn :=
        ((Streams.allotted hr).born u).mpr (Nat.le_of_not_lt hlt)
      rw [hu] at hborn
      cases hborn
    have howns : s.Owns u (s.owner u) (s.table (s.owner u)) := ⟨hr, rfl, hthread, halive, rfl⟩
    obtain ⟨T', ⟨hwired, rfl⟩, hs'⟩ :=
      does_runPipeline hin hout hne hcomd pipe s l ret s' howns hrun hok
    rw [hargs] at hwired
    exact ⟨hwired, hs'.table⟩

/-- `echo | lcase | wc`, run by the initial task with the null stream at its fids 0 and 1. -/
theorem line_wired_three : ∃ (s : Streams) (l : List ShellEvent) (s' : Streams), l.length = 24 ∧
    Wired (s.table 1 0) (s.table 1 1) [[cstring "echo" (by decide)], [cstring "lcase" (by decide)],
      [cstring "wc" (by decide)]] (pipesMade 1 l) (childrenStarted l) ∧
    s'.table 1 = s.table 1 := by
  let argv : List CString := [cstring "echo" (by decide), bar, cstring "lcase" (by decide), bar,
    cstring "wc" (by decide)]
  let fs : List Fragment := [⟨17, [cstring "echo" (by decide)]⟩, ⟨8, [cstring "lcase" (by decide)]⟩,
    ⟨9, [cstring "wc" (by decide)]⟩]
  have hline : processLine argv [0, 0, 0, 0, 0] [0, 0, 0, 0, 0] ⟨0, 0⟩ =
    some (runPipeline fs ⟨0, 0⟩) := rfl
  have hpass : ¬ Rejects (runPipeline fs ⟨0, 0⟩) := by
    intro h
    obtain ⟨text, htext⟩ := (rejects_respond_iff ⟨0, 0⟩ (.ok fs)).mp h
    cases htext
  obtain ⟨s, hr, hs⟩ := Sys.reachIf_of_exec (M := streamSys) (C := fun _ _ => True)
    (fun _ _ => true) (.initial 0) [.openNull 0, .openNull 0]
    (fun s => decide (s.owner 0 = 1 ∧ s.pc 0 = .running ∧ s.pstate 1 = .alive ∧
      s.table 1 0 ≠ none ∧ s.table 1 1 ≠ none) &&
      ((runPipeline fs ⟨0, 0⟩).run (Streams.handle 0) s).elim false fun t =>
        decide (t.1.length = 24) && t.1.all succeeded)
    (fun _ _ _ => trivial) ⟨0, rfl⟩ (by decide +kernel)
  obtain ⟨hstart, hs⟩ := Bool.and_eq_true_iff.mp hs
  obtain ⟨howner, hpc, halive, hin, hout⟩ := of_decide_eq_true hstart
  cases hrun : (runPipeline fs ⟨0, 0⟩).run (Streams.handle 0) s with
  | none =>
    rw [hrun] at hs
    cases hs
  | some t =>
    obtain ⟨l, ret, s'⟩ := t
    rw [hrun] at hs
    obtain ⟨hlen, hok⟩ := Bool.and_eq_true_iff.mp hs
    have hwired := line_wired argv _ _ _ rfl rfl _ hline hpass s hr 0 hpc (howner ▸ halive)
      (howner ▸ hin) (howner ▸ hout) l ret s' (.of_run Streams.serve_of_handle hrun)
      (List.all_eq_true.mp hok)
    rw [howner] at hwired
    exact ⟨s, l, s', of_decide_eq_true hlen, hwired⟩

end TinyOS
