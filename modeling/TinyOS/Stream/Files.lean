import TinyOS.Proc.Basic

/-!
# File tables (`kernel_streams.c`)

The FCBs, the list of the free ones, and the `FIDT` of every process: what `FCB_reserve`,
`FCB_incref` and their like do to them. What a stream is, and what its methods do, is left to the
modules above; an FCB only holds the name of its stream, which stands for `streamobj` and
`streamfunc` together.

`FCB_freelist` is a ring of nodes in the source and a list here. A fid is an `Int`, because that is
what the callers pass; only the entries 0 to 15 are ever set.
-/

set_option autoImplicit false

namespace TinyOS

def MAX_FILEID : Nat := 16

def MAX_FILES : Nat := MAX_PROC

/-- `streamobj` and `streamfunc` of an FCB. -/
inductive Stream where
  | null
  | serial (term : Nat)
  /-- The two ends of the pipe `q`. -/
  | reader (q : Nat)
  | writer (q : Nat)
  | socket (k : Nat)
  /-- What `OpenInfo` copied. -/
  | info
  deriving DecidableEq

structure FCB where
  /-- There are fewer than `2 ^ 32` references to anything, so it does not wrap. -/
  refcount : Int
  /-- `none` is the `NULL` of an FCB that was never used. -/
  stream : Option Stream
  deriving DecidableEq

structure FileTables where
  FIDT : Nat → Int → Option Nat
  FT : Nat → FCB
  freelist : List Nat

namespace FileTables

def modifyFCB (t : FileTables) (f : Nat) (g : FCB → FCB) : FileTables :=
  { t with FT := Function.update t.FT f (g (t.FT f)) }

/-- `PT[p].FIDT[fid] = fcb`. -/
def setEntry (t : FileTables) (p : Nat) (fid : Int) (fcb : Option Nat) : FileTables :=
  { t with FIDT := Function.update t.FIDT p (Function.update (t.FIDT p) fid fcb) }

/-! ## FCBs -/

def initializeFiles : FileTables where
  FIDT _ _ := none
  FT _ := { refcount := 0, stream := none }
  freelist := List.range' 0 MAX_FILES

def acquireFCB (t : FileTables) : Option (Nat × FileTables) :=
  match t.freelist with
  | [] => none
  | f :: rest => some (f, { t.modifyFCB f fun b => { b with refcount := 0 } with freelist := rest })

def releaseFCB (t : FileTables) (f : Nat) : FileTables :=
  { t with freelist := t.freelist ++ [f] }

def increfFCB (t : FileTables) (f : Nat) : FileTables :=
  t.modifyFCB f fun b => { b with refcount := b.refcount + 1 }

/-- `fcb->refcount--`. -/
def decrementFCB (t : FileTables) (f : Nat) : FileTables :=
  t.modifyFCB f fun b => { b with refcount := b.refcount - 1 }

@[simp] theorem setEntry_FT (t : FileTables) (p : Nat) (i : Int) (o : Option Nat) :
    (t.setEntry p i o).FT = t.FT := rfl

@[simp] theorem increfFCB_FIDT (t : FileTables) (f : Nat) : (t.increfFCB f).FIDT = t.FIDT := rfl

theorem setEntry_FIDT (t : FileTables) (p q : Nat) (i j : Int) (o : Option Nat) :
    (t.setEntry p i o).FIDT q j = if q = p ∧ j = i then o else t.FIDT q j := by
  simp only [setEntry, Function.update_apply]
  by_cases hq : q = p
  · subst hq
    simp [Function.update_apply]
  · simp [hq]

/-- An entry that is set twice. -/
theorem setEntry_increfFCB_setEntry (t : FileTables) (p f : Nat) (i : Int) (o o' : Option Nat) :
    ((t.setEntry p i o).increfFCB f).setEntry p i o' = (t.increfFCB f).setEntry p i o' := by
  simp [setEntry, increfFCB, modifyFCB]

theorem modifyFCB_FT (t : FileTables) (f g : Nat) (h : FCB → FCB) :
    (t.modifyFCB f h).FT g = if g = f then h (t.FT g) else t.FT g := by
  simp only [modifyFCB, Function.update_apply]
  split
  · rename_i hg
    rw [hg]
  · rfl

theorem increfFCB_refcount (t : FileTables) (f g : Nat) : ((t.increfFCB f).FT g).refcount =
    if g = f then (t.FT g).refcount + 1 else (t.FT g).refcount := by
  rw [increfFCB, modifyFCB_FT]
  split <;> rfl

@[simp] theorem increfFCB_stream (t : FileTables) (f g : Nat) :
    ((t.increfFCB f).FT g).stream = (t.FT g).stream := by
  rw [increfFCB, modifyFCB_FT]
  split <;> rfl

theorem decrementFCB_refcount (t : FileTables) (f g : Nat) : ((t.decrementFCB f).FT g).refcount =
    if g = f then (t.FT g).refcount - 1 else (t.FT g).refcount := by
  rw [decrementFCB, modifyFCB_FT]
  split <;> rfl

@[simp] theorem decrementFCB_stream (t : FileTables) (f g : Nat) :
    ((t.decrementFCB f).FT g).stream = (t.FT g).stream := by
  rw [decrementFCB, modifyFCB_FT]
  split <;> rfl

/-- `get_fcb`, in process `p`. -/
def getFCB (t : FileTables) (p : Nat) (fid : Int) : Option Nat :=
  if fid < 0 ∨ (MAX_FILEID : Int) ≤ fid then none else t.FIDT p fid

/-! ## `FCB_reserve` and `FCB_unreserve` -/

/-- The fids, in order. -/
def fids : List Int := (List.range MAX_FILEID).map Int.ofNat

/-- The first loop of `FCB_reserve`: up to `num` free fids among the ones that are left. -/
def findFids (t : FileTables) (p : Nat) : Nat → List Int → List Int
  | 0, _ => []
  | _ + 1, [] => []
  | num + 1, i :: is =>
    if t.FIDT p i = none then i :: findFids t p num is else findFids t p (num + 1) is

/-- The second loop: it stops at an `acquire_FCB` that fails. -/
def acquireFCBs : Nat → FileTables → List Nat × FileTables
  | 0, t => ([], t)
  | num + 1, t =>
    match t.acquireFCB with
    | none => ([], t)
    | some (f, t) => (f :: (acquireFCBs num t).1, (acquireFCBs num t).2)

/-- A turn of the last loop. -/
def install (p : Nat) (t : FileTables) (e : Int × Nat) : FileTables :=
  (t.setEntry p e.1 (some e.2)).increfFCB e.2

/-- `FCB_reserve`, in process `p`: the fids and the FCBs, or `none`. -/
def reserveFCB (t : FileTables) (num p : Nat) : Option (List (Int × Nat)) × FileTables :=
  let fid := t.findFids p num fids
  if fid.length < num then (none, t)
  else
    let fcb := (acquireFCBs num t).1
    let t := (acquireFCBs num t).2
    if fcb.length < num then (none, fcb.reverse.foldl releaseFCB t)
    else (some (fid.zip fcb), (fid.zip fcb).foldl (install p) t)

theorem reserveFCB_one {t : FileTables} {p f : Nat} {i : Int} {rest : List Nat}
    (hi : t.findFids p 1 fids = [i]) (hf : t.freelist = f :: rest) :
    t.reserveFCB 1 p = (some [(i, f)], install p
      { t.modifyFCB f fun b => { b with refcount := 0 } with freelist := rest } (i, f)) := by
  simp [reserveFCB, hi, acquireFCBs, acquireFCB, hf]

/-- `FCB_unreserve`; its assertion holds of what `FCB_reserve` has just answered. -/
def unreserveFCB (t : FileTables) (p : Nat) (es : List (Int × Nat)) : FileTables :=
  es.foldl (fun t e => (t.setEntry p e.1 none).releaseFCB e.2) t

/-- The loop of `sys_Exec`: process `q` inherits the entries of process `p`. -/
def inherit (t : FileTables) (p q : Nat) : List Int → FileTables
  | [] => t
  | i :: is =>
    let t := t.setEntry q i (t.FIDT p i)
    let t := match t.FIDT q i with
      | none => t
      | some f => t.increfFCB f
    inherit t p q is

/-! ## References

A reference to an FCB is an entry of a file table, or a thread in `Read` or `Write`. -/

inductive Ref where
  | entry (p : Nat) (fid : Int)
  | thread (u : Nat)
  deriving DecidableEq

/-- The invariant. `calls u` is the FCB that thread `u` reads or writes, `R f` lists the references
to `f`, and `held` the FCBs that `FCB_reserve` has acquired and not yet entered in a table. -/
structure Inv (t : FileTables) (calls : Nat → Option Nat) (R : Nat → List Ref)
    (held : List Nat) : Prop where
  free : ∀ f, f ∈ t.freelist ↔ f < MAX_FILES ∧ R f = [] ∧ f ∉ held
  nodup : t.freelist.Nodup
  held : held.Nodup ∧ ∀ f ∈ held, f < MAX_FILES ∧ R f = [] ∧ (t.FT f).refcount = 0
  inside : ∀ f, R f ≠ [] → f < MAX_FILES
  count : ∀ f, R f ≠ [] → (t.FT f).refcount = (R f).length
  refs : ∀ f, (R f).Nodup
  entries : ∀ f p i, .entry p i ∈ R f ↔ t.FIDT p i = some f
  threads : ∀ f u, .thread u ∈ R f ↔ calls u = some f
  range : ∀ p i, t.FIDT p i ≠ none → 0 ≤ i ∧ i < MAX_FILEID

variable {t t' : FileTables} {calls calls' : Nat → Option Nat} {R : Nat → List Ref}
  {held : List Nat}

theorem inv_initializeFiles : initializeFiles.Inv (fun _ => none) (fun _ => []) [] := by
  constructor
  case free =>
    intro f
    simp only [initializeFiles, List.mem_range'_1]
    simp
  case nodup => exact List.nodup_range'
  all_goals simp [initializeFiles]

/-! ### One reference more, one reference less -/

/-- A reference is added to an FCB that has some already. -/
theorem Inv.addRef (h : t.Inv calls R held) {f : Nat} {r : Ref} (hf : R f ≠ [])
    (hentry : ∀ p i, t'.FIDT p i = if .entry p i = r then some f else t.FIDT p i)
    (hthread : ∀ u, calls' u = if .thread u = r then some f else calls u)
    (hnew : ∀ g, r ∉ R g) (hrange : ∀ p i, .entry p i = r → 0 ≤ i ∧ i < MAX_FILEID)
    (hFT : ∀ g, (t'.FT g).refcount =
      if g = f then (t.FT g).refcount + 1 else (t.FT g).refcount)
    (hfree : t'.freelist = t.freelist) :
    t'.Inv calls' (Function.update R f (R f ++ [r])) held := by
  have happ : R f ++ [r] ≠ [] := List.concat_ne_nil r _
  constructor <;> try simp only [Function.update_apply, hfree, hFT]
  case free => have := h.free; grind
  case nodup => exact h.nodup
  case held => have := h.held; grind
  case inside => have := h.inside; grind
  case count => have := h.count; grind
  case refs => have := h.refs; grind
  case entries => have := h.entries; grind
  case threads => have := h.threads; grind
  case range => have := h.range; grind

/-- A reference is dropped. An FCB that has no other goes to the end of the free list. -/
theorem Inv.dropRef (h : t.Inv calls R held) {f : Nat} {r : Ref} (hr : r ∈ R f)
    (hentry : ∀ p i, t'.FIDT p i = if .entry p i = r then none else t.FIDT p i)
    (hthread : ∀ u, calls' u = if .thread u = r then none else calls u)
    (hFT : ∀ g, (t'.FT g).refcount =
      if g = f then (t.FT g).refcount - 1 else (t.FT g).refcount)
    (hfree : t'.freelist = if (t.FT f).refcount = 1 then t.freelist ++ [f] else t.freelist) :
    t'.Inv calls' (Function.update R f ((R f).erase r)) held := by
  have hf : R f ≠ [] := List.ne_nil_of_mem hr
  have hcount := h.count f hf
  have hpos : 0 < (R f).length := List.length_pos_of_mem hr
  have hlen : ((R f).erase r).length = (R f).length - 1 := List.length_erase_of_mem hr
  have hlast : (t.FT f).refcount = 1 ↔ (R f).erase r = [] := by
    rw [← List.length_eq_zero_iff, hlen]
    omega
  have hnl : f ∉ t.freelist := fun hm => hf ((h.free f).mp hm).2.1
  have hnh : f ∉ held := fun hm => hf (h.held.2 f hm).2.1
  have hother : ∀ g, r ∈ R g → g = f := by
    intro g hg
    cases r with
    | entry p i =>
      have h₁ := (h.entries f p i).mp hr
      exact Option.some.inj (((h.entries g p i).mp hg).symm.trans h₁)
    | thread u =>
      have h₁ := (h.threads f u).mp hr
      exact Option.some.inj (((h.threads g u).mp hg).symm.trans h₁)
  simp only [hlast] at hfree
  constructor <;> try simp only [Function.update_apply, hfree, hFT]
  case free => have := h.free; have := h.inside; grind
  case nodup => have := h.nodup; grind
  case held => have := h.held; grind
  case inside => have := h.inside; grind
  case count => have := h.count; grind
  case refs => have := h.refs; grind
  case entries => have := h.entries; have := h.refs; grind
  case threads => have := h.threads; have := h.refs; grind
  case range => have := h.range; grind

/-! ### Reserving -/

theorem Inv.acquire (h : t.Inv calls R held) {f : Nat} (ha : t.acquireFCB = some (f, t')) :
    t'.Inv calls R (f :: held) := by
  unfold acquireFCB at ha
  split at ha
  · exact absurd ha (by simp)
  · rename_i g rest hl
    obtain ⟨rfl, rfl⟩ := Prod.mk.inj (Option.some.inj ha)
    have hfree := h.free
    have hnd := h.nodup
    rw [hl] at hfree hnd
    constructor <;> try simp only [modifyFCB, Function.update_apply]
    case free => grind
    case nodup => grind
    case held => have := h.held; grind
    case count => have := h.count; grind
    case inside => exact h.inside
    case refs => exact h.refs
    case entries => exact h.entries
    case threads => exact h.threads
    case range => exact h.range

theorem Inv.release {f : Nat} (h : t.Inv calls R (f :: held)) :
    (t.releaseFCB f).Inv calls R held := by
  constructor <;> try simp only [releaseFCB]
  case free => have := h.free; have := h.held; grind
  case nodup => have := h.nodup; have := h.free; grind
  case held => have := h.held; grind
  case inside => exact h.inside
  case count => exact h.count
  case refs => exact h.refs
  case entries => exact h.entries
  case threads => exact h.threads
  case range => exact h.range

theorem Inv.install (h : t.Inv calls R held) {p f : Nat} {i : Int} (hf : f ∈ held)
    (hi : t.FIDT p i = none) (hrange : 0 ≤ i ∧ i < MAX_FILEID) :
    (install p t (i, f)).Inv calls (Function.update R f [.entry p i]) (held.erase f) := by
  have hR := h.held.2 f hf
  have hnew : ∀ g, .entry p i ∉ R g := fun g hm => by
    have := (h.entries g p i).mp hm
    simp [hi] at this
  constructor <;> try simp only [FileTables.install, setEntry, increfFCB, modifyFCB,
    Function.update_apply]
  case free => have := h.free; have := h.held; grind
  case nodup => exact h.nodup
  case held => have := h.held; grind
  case inside => have := h.inside; grind
  case count => have := h.count; grind
  case refs => have := h.refs; grind
  case entries => have := h.entries; grind
  case threads => have := h.threads; grind
  case range => have := h.range; grind

/-! ### The loops of `FCB_reserve` -/

/-- The fids found are free and different, in order. -/
theorem findFids_spec (t : FileTables) (p num : Nat) (is : List Int) :
    (t.findFids p num is).Sublist is ∧ (t.findFids p num is).length ≤ num ∧
      ∀ i ∈ t.findFids p num is, t.FIDT p i = none := by
  induction is generalizing num with
  | nil => cases num <;> simp [findFids]
  | cons i is ih =>
    cases num with
    | zero => simp [findFids]
    | succ num =>
      rw [findFids]
      split
      · rename_i hi
        obtain ⟨hsub, hlen, hnone⟩ := ih num
        exact ⟨hsub.cons_cons i, by simpa using hlen, by simpa [hi] using hnone⟩
      · obtain ⟨hsub, hlen, hnone⟩ := ih (num + 1)
        exact ⟨hsub.cons i, hlen, hnone⟩

/-- What `acquire_FCB` does not touch. -/
theorem acquireFCBs_frame (num : Nat) (t : FileTables) :
    (acquireFCBs num t).2.FIDT = t.FIDT ∧
      (∀ f, ((acquireFCBs num t).2.FT f).stream = (t.FT f).stream) ∧
      (acquireFCBs num t).1.length ≤ num := by
  induction num generalizing t with
  | zero => exact ⟨rfl, fun _ => rfl, Nat.le_refl 0⟩
  | succ num ih =>
    rw [acquireFCBs]
    split
    · exact ⟨rfl, fun _ => rfl, Nat.zero_le _⟩
    · rename_i f t' ha
      obtain ⟨h₁, h₂, h₃⟩ := ih t'
      unfold acquireFCB at ha
      split at ha
      · exact absurd ha (by simp)
      · obtain ⟨rfl, rfl⟩ := Prod.mk.inj (Option.some.inj ha)
        refine ⟨h₁, fun g => ?_, by simpa using h₃⟩
        rw [h₂ g]
        simp only [modifyFCB, Function.update_apply]
        split
        · rename_i hg
          rw [hg]
        · rfl

theorem Inv.acquireFCBs (h : t.Inv calls R held) (num : Nat) :
    (acquireFCBs num t).2.Inv calls R ((acquireFCBs num t).1.reverse ++ held) := by
  induction num generalizing t held with
  | zero => exact h
  | succ num ih =>
    rw [FileTables.acquireFCBs]
    split
    · exact h
    · rename_i f t' ha
      simpa using ih (h.acquire ha)

/-- The roll-back. -/
theorem Inv.releaseFCBs (fs : List Nat) (h : t.Inv calls R (fs ++ held)) :
    (fs.foldl releaseFCB t).Inv calls R held := by
  induction fs generalizing t with
  | nil => exact h
  | cons f fs ih => exact ih h.release

theorem releaseFCBs_frame (fs : List Nat) (t : FileTables) :
    (fs.foldl releaseFCB t).FIDT = t.FIDT ∧ (fs.foldl releaseFCB t).FT = t.FT := by
  induction fs generalizing t with
  | nil => exact ⟨rfl, rfl⟩
  | cons f fs ih => exact ih (t.releaseFCB f)

/-- The references that `FCB_reserve` makes. -/
def installed (R : Nat → List Ref) (p : Nat) : List (Int × Nat) → Nat → List Ref
  | [] => R
  | (i, f) :: es => installed (Function.update R f [.entry p i]) p es

theorem Inv.installAll (p : Nat) (es : List (Int × Nat)) (h : t.Inv calls R held)
    (hf : (es.map (·.2)).Nodup) (hi : (es.map (·.1)).Nodup)
    (hes : ∀ e ∈ es, e.2 ∈ held ∧ t.FIDT p e.1 = none ∧ 0 ≤ e.1 ∧ e.1 < MAX_FILEID) :
    (es.foldl (FileTables.install p) t).Inv calls (installed R p es)
      (held.diff (es.map (·.2))) := by
  induction es generalizing t R held with
  | nil => exact h
  | cons e es ih =>
    obtain ⟨i, f⟩ := e
    obtain ⟨hin, hnone, hrange⟩ := hes _ List.mem_cons_self
    simp only [List.map_cons, List.nodup_cons] at hf hi
    rw [List.foldl_cons, List.map_cons, List.diff_cons]
    refine ih (h.install hin hnone hrange) hf.2 hi.2 fun e he => ?_
    obtain ⟨hein, hefree, herange⟩ := hes e (List.mem_cons_of_mem _ he)
    have hne : e.2 ≠ f := fun heq => hf.1 (heq ▸ List.mem_map_of_mem he)
    have hnei : e.1 ≠ i := fun heq => hi.1 (heq ▸ List.mem_map_of_mem he)
    refine ⟨(List.mem_erase_of_ne hne).mpr hein, ?_, herange⟩
    simpa [FileTables.install, setEntry_FIDT, hnei] using hefree

theorem install_foldl_stream (p : Nat) (es : List (Int × Nat)) (t : FileTables) (f : Nat) :
    ((es.foldl (install p) t).FT f).stream = (t.FT f).stream := by
  induction es generalizing t with
  | nil => rfl
  | cons e es ih =>
    rw [List.foldl_cons, ih, install, increfFCB_stream, setEntry_FT]

theorem install_foldl_FIDT (p : Nat) (es : List (Int × Nat)) (t : FileTables) {q : Nat}
    (hq : q ≠ p) : (es.foldl (install p) t).FIDT q = t.FIDT q := by
  induction es generalizing t with
  | nil => rfl
  | cons e es ih =>
    rw [List.foldl_cons, ih]
    funext i
    simp [install, setEntry_FIDT, hq]

theorem fids_range {i : Int} (hi : i ∈ fids) : 0 ≤ i ∧ i < MAX_FILEID := by
  obtain ⟨n, hn, rfl⟩ := List.mem_map.mp hi
  have := List.mem_range.mp hn
  exact ⟨Int.natCast_nonneg n, Int.ofNat_lt.mpr this⟩

theorem fids_nodup : fids.Nodup :=
  List.Nodup.map (fun _ _ h => Int.ofNat.inj h) List.nodup_range

/-- `FCB_reserve` answers as many fids as it was asked for, or changes no file table. -/
theorem reserveFCB_cases (t : FileTables) (num p : Nat) :
    (∃ t', t.reserveFCB num p = (none, t') ∧ t'.FIDT = t.FIDT) ∨
      ∃ es, t.reserveFCB num p = (some es, es.foldl (install p) (acquireFCBs num t).2) ∧
        es.length = num ∧ ∀ e ∈ es, 0 ≤ e.1 ∧ e.1 < MAX_FILEID := by
  obtain ⟨hsub, hle, -⟩ := t.findFids_spec p num fids
  obtain ⟨hFIDT, -, hle'⟩ := acquireFCBs_frame num t
  unfold reserveFCB
  simp only
  split
  · exact .inl ⟨t, rfl, rfl⟩
  split
  · refine .inl ⟨_, rfl, ?_⟩
    rw [(releaseFCBs_frame _ _).1, hFIDT]
  · refine .inr ⟨_, rfl, ?_, fun e he => ?_⟩
    · rw [List.length_zip]
      omega
    · exact fids_range (hsub.subset (List.of_mem_zip he).1)

/-- It opens nothing. -/
theorem reserveFCB_stream (t : FileTables) (num p f : Nat) :
    ((t.reserveFCB num p).2.FT f).stream = (t.FT f).stream := by
  obtain ⟨-, hstream, -⟩ := acquireFCBs_frame num t
  unfold reserveFCB
  simp only
  split
  · rfl
  split
  · rw [(releaseFCBs_frame _ _).2, hstream]
  · rw [install_foldl_stream, hstream]

theorem reserveFCB_one_cases (t : FileTables) (p : Nat) :
    (∃ t', t.reserveFCB 1 p = (none, t')) ∨
      ∃ i f t', t.reserveFCB 1 p = (some [(i, f)], t') ∧ t'.getFCB p i = some f := by
  obtain ⟨t', hr, -⟩ | ⟨es, hr, hlen, hrange⟩ := t.reserveFCB_cases 1 p
  · exact .inl ⟨t', hr⟩
  · obtain ⟨⟨i, f⟩, rfl⟩ := List.length_eq_one_iff.mp hlen
    obtain ⟨h0, hmax⟩ := hrange (i, f) List.mem_cons_self
    refine .inr ⟨i, f, _, hr, ?_⟩
    rw [getFCB, if_neg (by simp only at h0 hmax; omega)]
    simp [install, setEntry_FIDT]

theorem reserveFCB_two_cases (t : FileTables) (p : Nat) :
    (∃ t', t.reserveFCB 2 p = (none, t')) ∨
      ∃ i₀ f₀ i₁ f₁ t', t.reserveFCB 2 p = (some [(i₀, f₀), (i₁, f₁)], t') := by
  obtain ⟨t', hr, -⟩ | ⟨es, hr, hlen, -⟩ := t.reserveFCB_cases 2 p
  · exact .inl ⟨t', hr⟩
  · obtain ⟨⟨i₀, f₀⟩, ⟨i₁, f₁⟩, rfl⟩ := List.length_eq_two.mp hlen
    exact .inr ⟨i₀, f₀, i₁, f₁, _, hr⟩

/-- The fids that it answers are those that its first loop found. -/
theorem findFids_of_reserve {t t' : FileTables} {num p : Nat} {es : List (Int × Nat)}
    (hr : t.reserveFCB num p = (some es, t')) : t.findFids p num fids = es.map (·.1) := by
  obtain ⟨-, hle, -⟩ := t.findFids_spec p num fids
  obtain ⟨-, -, hle'⟩ := acquireFCBs_frame num t
  unfold reserveFCB at hr
  dsimp only at hr
  split at hr
  · cases hr
  split at hr
  · cases hr
  · have hes := Option.some.inj (Prod.mk.inj hr).1
    rw [← hes]
    exact (List.map_fst_zip (by omega)).symm

/-- A process gets its fids and its FCBs, -/
theorem Inv.reserve_some (h : t.Inv calls R []) {num p : Nat} {es : List (Int × Nat)}
    (hr : t.reserveFCB num p = (some es, t')) :
    t'.Inv calls (installed R p es) [] ∧ es.length = num ∧
      (es.map (·.1)).Nodup ∧ (es.map (·.2)).Nodup ∧
      (∀ e ∈ es, R e.2 = [] ∧ t.FIDT p e.1 = none) ∧
      (∀ f, (t'.FT f).stream = (t.FT f).stream) ∧ ∀ q, q ≠ p → t'.FIDT q = t.FIDT q := by
  unfold reserveFCB at hr
  obtain ⟨hsub, hle, hnone⟩ := t.findFids_spec p num fids
  obtain ⟨hFIDT, hstream, hle'⟩ := acquireFCBs_frame num t
  have hi := h.acquireFCBs num
  simp only [List.append_nil] at hi
  simp only at hr
  split at hr
  · exact absurd hr (by simp)
  rename_i hlen
  split at hr
  · exact absurd hr (by simp)
  rename_i hlen'
  obtain ⟨hes, rfl⟩ := Prod.mk.inj hr
  obtain rfl := Option.some.inj hes
  generalize t.findFids p num fids = is at *
  generalize (FileTables.acquireFCBs num t).1 = fs at *
  generalize (FileTables.acquireFCBs num t).2 = t₁ at *
  have hfst : (is.zip fs).map (·.1) = is := List.map_fst_zip (by omega)
  have hsnd : (is.zip fs).map (·.2) = fs := List.map_snd_zip (by omega)
  have hnd : fs.Nodup := List.nodup_reverse.mp hi.held.1
  have hndi : is.Nodup := hsub.nodup fids_nodup
  have hmem : ∀ e ∈ is.zip fs, e.1 ∈ is ∧ e.2 ∈ fs := fun e he => List.of_mem_zip he
  have hinst := hi.installAll p (is.zip fs) (by rwa [hsnd]) (by rwa [hfst]) fun e he =>
    ⟨List.mem_reverse.mpr (hmem e he).2, by rw [hFIDT]; exact hnone _ (hmem e he).1,
      fids_range (hsub.subset (hmem e he).1)⟩
  have hdiff : fs.reverse.diff ((is.zip fs).map (·.2)) = [] := by
    rw [hsnd]
    refine List.eq_nil_iff_forall_not_mem.mpr fun f hf => ?_
    obtain ⟨h₁, h₂⟩ := (List.Nodup.mem_sdiff_iff hi.held.1).mp hf
    exact h₂ (List.mem_reverse.mp h₁)
  rw [hdiff] at hinst
  refine ⟨hinst, ?_, by rwa [hfst], by rwa [hsnd], fun e he => ⟨?_, hnone _ (hmem e he).1⟩,
    fun f => ?_, fun q hq => ?_⟩
  · rw [List.length_zip]
    omega
  · exact (hi.held.2 e.2 (List.mem_reverse.mpr (hmem e he).2)).2.1
  · rw [install_foldl_stream, hstream]
  · rw [install_foldl_FIDT _ _ _ hq, hFIDT]

/-- or the call changes nothing but the order of the free list. -/
theorem Inv.reserve_none (h : t.Inv calls R []) {num p : Nat}
    (hr : t.reserveFCB num p = (none, t')) :
    t'.Inv calls R [] ∧ t'.FIDT = t.FIDT ∧ ∀ f, (t'.FT f).stream = (t.FT f).stream := by
  unfold reserveFCB at hr
  obtain ⟨hFIDT, hstream, -⟩ := acquireFCBs_frame num t
  have hi := h.acquireFCBs num
  simp only at hr
  split at hr
  · cases hr
    exact ⟨h, rfl, fun _ => rfl⟩
  split at hr
  · cases hr
    obtain ⟨h₁, h₂⟩ := releaseFCBs_frame (FileTables.acquireFCBs num t).1.reverse
      (FileTables.acquireFCBs num t).2
    exact ⟨hi.releaseFCBs _, by rw [h₁, hFIDT], fun f => by rw [h₂, hstream]⟩
  · exact absurd hr (by simp)

/-- The count does not depend on the stream. -/
theorem Inv.setStream (h : t.Inv calls R held) (f : Nat) (st : Stream) :
    (t.modifyFCB f fun b => { b with stream := some st }).Inv calls R held := by
  have hrefcount : ∀ g, ((t.modifyFCB f fun b => { b with stream := some st }).FT g).refcount =
      (t.FT g).refcount := by
    intro g
    rw [modifyFCB_FT]
    split <;> rfl
  refine ⟨h.free, h.nodup, ⟨h.held.1, fun g hg => ?_⟩, h.inside, fun g hg => ?_, h.refs, h.entries,
    h.threads, h.range⟩
  · rw [hrefcount]
    exact h.held.2 g hg
  · rw [hrefcount]
    exact h.count g hg

/-- The only reference is taken back. -/
theorem Inv.unreserve (h : t.Inv calls R []) {p f : Nat} {i : Int} (hf : R f = [.entry p i]) :
    (t.unreserveFCB p [(i, f)]).Inv calls (Function.update R f []) [] := by
  have hentry := (h.entries f p i).mp (by simp [hf])
  constructor <;> try simp only [unreserveFCB, List.foldl_cons, List.foldl_nil, setEntry,
    releaseFCB, Function.update_apply]
  case free => have := h.free; have := h.inside; grind
  case nodup => have := h.nodup; have := h.free; grind
  case held => exact ⟨.nil, by simp⟩
  case inside => have := h.inside; grind
  case count => have := h.count; grind
  case refs => have := h.refs; grind
  case entries => have := h.entries; grind
  case threads => have := h.threads; grind
  case range => have := h.range; grind

/-! ### Inheritance -/

theorem inherit_stream (t : FileTables) (p q : Nat) (is : List Int) (f : Nat) :
    ((t.inherit p q is).FT f).stream = (t.FT f).stream := by
  induction is generalizing t with
  | nil => rfl
  | cons i is ih =>
    rw [FileTables.inherit, ih]
    split <;> simp

/-- A new process inherits the file table of its parent. -/
theorem Inv.inherit (h : t.Inv calls R []) {p q : Nat} (is : List Int)
    (hnd : is.Nodup) (hq : ∀ i ∈ is, t.FIDT q i = none) :
    ∃ R', (t.inherit p q is).Inv calls R' [] ∧ (∀ f, R' f = [] ↔ R f = []) ∧
      (t.inherit p q is).freelist = t.freelist ∧
      (∀ f, ((t.inherit p q is).FT f).stream = (t.FT f).stream) ∧
      ∀ r, r ≠ q → (t.inherit p q is).FIDT r = t.FIDT r := by
  induction is generalizing t R with
  | nil => exact ⟨R, h, fun _ => Iff.rfl, rfl, fun _ => rfl, fun _ _ => rfl⟩
  | cons i is ih =>
    obtain ⟨hi, hnd⟩ := List.nodup_cons.mp hnd
    have hnone := hq i List.mem_cons_self
    have hrest : ∀ j ∈ is, t.FIDT q j = none := fun j hj => hq j (List.mem_cons_of_mem _ hj)
    have hself : (t.setEntry q i (t.FIDT p i)).FIDT q i = t.FIDT p i := by simp [setEntry]
    rw [FileTables.inherit]
    simp only [hself]
    cases hp : t.FIDT p i with
    | none =>
      have hsame : t.setEntry q i none = t := by
        have : Function.update (t.FIDT q) i none = t.FIDT q := by
          rw [← hnone, Function.update_eq_self]
        simp only [setEntry, this, Function.update_eq_self]
      simp only [hsame]
      exact ih h hnd hrest
    | some f =>
      have hf : R f ≠ [] := List.ne_nil_of_mem ((h.entries f p i).mpr hp)
      have hadd : ((t.setEntry q i (some f)).increfFCB f).Inv calls
          (Function.update R f (R f ++ [.entry q i])) [] := by
        refine h.addRef hf (fun p' j => ?_) (fun u => by simp) (fun g hg => ?_)
          (fun p' j he => ?_) (fun g => ?_) rfl
        · simp only [increfFCB_FIDT, setEntry_FIDT, Ref.entry.injEq]
        · have := (h.entries g q i).mp hg
          simp [hnone] at this
        · obtain ⟨-, rfl⟩ := Ref.entry.inj he
          exact h.range p j (by simp [hp])
        · simp only [increfFCB_refcount, setEntry_FT]
      obtain ⟨R', h₁, h₂, h₃, h₄, h₅⟩ := ih hadd hnd fun j hj => by
        have hji : j ≠ i := fun heq => hi (heq ▸ hj)
        simpa [setEntry_FIDT, hji] using hrest j hj
      refine ⟨R', h₁, fun g => ?_, h₃, fun g => ?_, fun r hr => ?_⟩
      · rw [h₂]
        by_cases hg : g = f
        · subst hg
          simp [hf]
        · rw [Function.update_of_ne hg]
      · rw [h₄, increfFCB_stream, setEntry_FT]
      · rw [h₅ r hr]
        funext j
        simp [setEntry_FIDT, hr]

end FileTables

end TinyOS
