import TinyOS.Stream.Counted
import TinyOS.Stream.Opens

/-!
# The open files of a process (`kernel_streams.c`)

What a fid of a process denotes changes only when a thread of the process opens, closes or duplicates
a fid, or exits: **no other step changes the table of the process** (`within_perform`), whatever it
does to FCBs that the processes share.

That needs less than an exact count. A `Socket` that runs out of memory, or a thread that goes on
after its process has exited, leave FCBs with more references counted than there are. But an FCB is
never free while something refers to it, and this holds **in every reachable state** (`covered`): `R`
may list references that are gone (`Covers`).
-/

set_option autoImplicit false

namespace TinyOS

open Transition FileTables

/-- What a fid denotes: the FCB, its stream, and when it was opened. -/
structure OpenFile where
  fcb : Nat
  stream : Option Stream
  opening : Nat
  deriving DecidableEq

namespace Streams

variable {s s' s₁ : Streams} {a : StreamAction} {R : Nat → List Ref} {P P' : Nat → Prop}
  {p u f : Nat}

/-- The open files of process `p`. -/
def table (s : Streams) (p : Nat) (i : Int) : Option OpenFile :=
  (s.FIDT p i).map fun f => ⟨f, (s.FT f).stream, s.opening f⟩

/-- `R f` lists all references to the FCB `f`, and `refcount` counts at least these. -/
structure Covers (s : Streams) (R : Nat → List Ref) : Prop where
  refs : ∀ f r, s.refers f r → r ∈ R f
  count : ∀ f, (R f).length ≤ (s.FT f).refcount
  free : ∀ f ∈ s.freelist, R f = []
  nodup : s.freelist.Nodup

/-- The processes whose tables the step may change. -/
def changes (s : Streams) (a : StreamAction) (p : Nat) : Prop :=
  match a with
  | .openNull u | .openTerminal u _ | .pipe u _ | .socket u _ _ | .openInfo u _ _ _ | .accept u _ _
  | .close u _ | .dup2 u _ _ => s.owner u = p
  | .exec _ q _ => q = p
  | .resume u _ _ => s.owner u = p ∧ ∃ l ready, s.pc u = .accepting l ready
  | .proceed u => s.owner u = p ∧ ∃ i, s.pc u = .exiting i
  | _ => False

/-- From `s` to `s'`, only the processes in `P` opened or closed files, or exited. -/
structure Within (P : Nat → Prop) (s s' : Streams) : Prop where
  covered : ∃ R, s'.Covers R
  table : ∀ r, ¬ P r → s'.table r = s.table r
  alive : ∀ r, ¬ P r → s.pstate r = .alive → s'.pstate r = .alive
  owner : ∀ v < s.threads, s'.owner v = s.owner v
  threads : s.threads ≤ s'.threads

theorem Within.trans (h : Within P s s₁) (h' : Within P s₁ s') : Within P s s' where
  covered := h'.covered
  table r hr := (h'.table r hr).trans (h.table r hr)
  alive r hr halive := h'.alive r hr (h.alive r hr halive)
  owner v hv := (h'.owner v (lt_of_lt_of_le hv h.threads)).trans (h.owner v hv)
  threads := h.threads.trans h'.threads

theorem Within.mono (h : Within P s s') (hP : ∀ r, P r → P' r) : Within P' s s' where
  covered := h.covered
  table r hr := h.table r fun hp => hr (hP r hp)
  alive r hr := h.alive r fun hp => hr (hP r hp)
  owner := h.owner
  threads := h.threads

/-! ## The rules of the invariant -/

/-- An FCB to which something refers is not free. -/
theorem Covers.notMem_freelist (h : s.Covers R) {r : Ref} (hr : s.refers f r) : f ∉ s.freelist := by
  intro hfree
  have hmem := h.refs f r hr
  rw [h.free f hfree] at hmem
  exact List.not_mem_nil hmem

/-- References go, and only free FCBs are counted anew. -/
theorem Covers.keep (h : s.Covers R) (hrefers : ∀ g r, s'.refers g r → s.refers g r)
    (hcount : ∀ g, (s'.FT g).refcount = (s.FT g).refcount ∨
      g ∈ s.freelist ∧ 0 ≤ (s'.FT g).refcount)
    (hfree : ∀ g ∈ s'.freelist, g ∈ s.freelist) (hnd : s'.freelist.Nodup) : s'.Covers R where
  refs g r hr := h.refs g r (hrefers g r hr)
  count g := by
    rcases hcount g with he | ⟨hg, hpos⟩
    · rw [he]
      exact h.count g
    · rw [h.free g hg]
      exact hpos
  free g hg := h.free g (hfree g hg)
  nodup := hnd

theorem Covers.addRef (h : s.Covers R) {r : Ref} (hf : f ∉ s.freelist)
    (hrefers : ∀ g r', s'.refers g r' → g = f ∧ r' = r ∨ s.refers g r')
    (hcount : ∀ g, (s'.FT g).refcount =
      if g = f then (s.FT g).refcount + 1 else (s.FT g).refcount)
    (hfree : s'.freelist = s.freelist) : s'.Covers (Function.update R f (r :: R f)) where
  refs g r' hr' := by
    by_cases hg : g = f
    · subst hg
      rw [Function.update_self]
      rcases hrefers g r' hr' with ⟨-, rfl⟩ | hold
      · exact List.mem_cons_self
      · exact List.mem_cons_of_mem _ (h.refs g r' hold)
    · rw [Function.update_of_ne hg]
      exact h.refs g r' ((hrefers g r' hr').resolve_left fun hn => hg hn.1)
  count g := by
    have := h.count g
    rw [hcount]
    by_cases hg : g = f
    · subst hg
      rw [Function.update_self, if_pos rfl, List.length_cons]
      omega
    · rwa [Function.update_of_ne hg, if_neg hg]
  free g hg := by
    rw [hfree] at hg
    have hne : g ≠ f := fun he => hf (he ▸ hg)
    rw [Function.update_of_ne hne]
    exact h.free g hg
  nodup := hfree ▸ h.nodup

/-- The count may only reach 0 with the last reference. -/
theorem Covers.dropRef (h : s.Covers R) {r : Ref} (hr : s.refers f r)
    (hrefers : ∀ g r', s'.refers g r' → r' ≠ r ∧ s.refers g r')
    (hcount : ∀ g, (s'.FT g).refcount =
      if g = f then (s.FT g).refcount - 1 else (s.FT g).refcount)
    (hfree : s'.freelist = if (s.FT f).refcount = 1 then s.freelist ++ [f] else s.freelist) :
    s'.Covers (Function.update R f ((R f).erase r)) := by
  have hmem := h.refs f r hr
  have hlen : ((R f).erase r).length = (R f).length - 1 := List.length_erase_of_mem hmem
  have hpos : 0 < (R f).length := List.length_pos_of_mem hmem
  have hf := h.notMem_freelist hr
  have hcountf := h.count f
  constructor
  case refs =>
    intro g r' hr'
    obtain ⟨hne, hold⟩ := hrefers g r' hr'
    by_cases hg : g = f
    · subst hg
      rw [Function.update_self]
      exact (List.mem_erase_of_ne hne).mpr (h.refs g r' hold)
    · rw [Function.update_of_ne hg]
      exact h.refs g r' hold
  case count =>
    intro g
    have := h.count g
    rw [hcount]
    by_cases hg : g = f
    · subst hg
      rw [Function.update_self, if_pos rfl]
      omega
    · rwa [Function.update_of_ne hg, if_neg hg]
  case free =>
    intro g hg
    by_cases hgf : g = f
    · subst hgf
      rw [hfree] at hg
      split at hg
      · rw [Function.update_self]
        exact List.eq_nil_of_length_eq_zero (by omega)
      · exact absurd hg hf
    · rw [Function.update_of_ne hgf]
      refine h.free g ?_
      rw [hfree] at hg
      split at hg
      · exact (List.mem_append.mp hg).resolve_right fun hm => hgf (List.mem_singleton.mp hm)
      · exact hg
  case nodup =>
    rw [hfree]
    split
    · exact List.nodup_append.mpr ⟨h.nodup, List.nodup_singleton f, fun g hg g' hg' he =>
        hf (List.mem_singleton.mp hg' ▸ he ▸ hg)⟩
    · exact h.nodup

/-- The streams that the table of a process names stay what they are. -/
theorem table_congr (hFIDT : s'.FIDT p = s.FIDT p)
    (hstream : ∀ i f, s.FIDT p i = some f →
      (s'.FT f).stream = (s.FT f).stream ∧ s'.opening f = s.opening f) :
    s'.table p = s.table p := by
  funext i
  rw [table, table, hFIDT]
  refine Option.map_congr fun f hf => ?_
  obtain ⟨h₁, h₂⟩ := hstream i f hf
  rw [h₁, h₂]

/-! ## Threads move -/

/-- The files stay as they are, and no thread begins a `Read` or a `Write`. -/
theorem Covers.moves (h : s.Covers R) (hfiles : s'.toFileTables = s.toFileTables)
    (hcalls : ∀ v g, (s'.pc v).fcb = some g → (s.pc v).fcb = some g)
    (hopening : s'.opening = s.opening)
    (halive : ∀ r, ¬ P r → s.pstate r = .alive → s'.pstate r = .alive)
    (howner : ∀ v < s.threads, s'.owner v = s.owner v) (hthreads : s.threads ≤ s'.threads) :
    Within P s s' where
  covered := by
    refine ⟨R, h.keep (fun g r hr => ?_) (fun g => .inl (by rw [hfiles])) ?_ ?_⟩
    · cases r with
      | entry q i =>
        have hr : s'.FIDT q i = some g := hr
        rwa [hfiles] at hr
      | thread v => exact hcalls v g hr
    · rw [hfiles]
      exact fun g hg => hg
    · rw [hfiles]
      exact h.nodup
  table r _ := table_congr (by rw [hfiles]) fun _ g _ => ⟨by rw [hfiles], by rw [hopening]⟩
  alive := halive
  owner := howner
  threads := hthreads

theorem Covers.quiet (h : s.Covers R) (hq : Quiet s s') : Within P s s' := by
  refine h.moves hq.files (fun v g hv => ?_) hq.opening (fun r _ halive => ?_)
    (fun v _ => congrFun hq.owner v) hq.threads.ge
  · rwa [StreamPc.fcb_eq (hq.place v)] at hv
  · rw [hq.pstate, halive]

/-- It stays in the call that it is in, or in none. -/
theorem Covers.goes (h : s.Covers R) (hg : Goes s s' u)
    (hcall : ∀ g, (s'.pc u).fcb = some g → (s.pc u).fcb = some g) : Within P s s' := by
  refine h.moves hg.files (fun v g hv => ?_) hg.opening (fun r _ halive => ?_)
    (fun v _ => congrFun hg.owner v) hg.threads.ge
  · by_cases hvu : v = u
    · subst hvu
      exact hcall g hv
    · rwa [StreamPc.fcb_eq (hg.place v hvu)] at hv
  · rw [hg.pstate, halive]

/-- It goes to where no thread reads or writes. -/
theorem goto_fcb {x : StreamPc} (hx : x.fcb = none) {v g : Nat}
    (hv : ((s.goto u x).pc v).fcb = some g) : (s.pc v).fcb = some g := by
  simp only [goto, Function.update_apply] at hv
  split at hv
  · rw [hx] at hv
    cases hv
  · exact hv

/-- It begins a `Read` or a `Write`. -/
theorem Covers.begins (h : s.Covers R) {fd : Int} (hf : s.getFCB p fd = some f)
    (hg : Goes { s with toFileTables := s.increfFCB f } s' u) (hcall : (s'.pc u).fcb = some f) :
    Within P s s' where
  covered := by
    have hentry : s.refers f (.entry p fd) := getFCB_eq hf
    refine ⟨_, h.addRef (r := .thread u) (h.notMem_freelist hentry) (fun g r hr => ?_)
      (fun g => ?_) ?_⟩
    · cases r with
      | entry q i =>
        have hr : s'.FIDT q i = some g := hr
        rw [hg.files] at hr
        exact .inr hr
      | thread v =>
        have hr : (s'.pc v).fcb = some g := hr
        by_cases hv : v = u
        · subst hv
          exact .inl ⟨Option.some.inj (hr.symm.trans hcall), rfl⟩
        · rw [StreamPc.fcb_eq (hg.place v hv)] at hr
          exact .inr hr
    · rw [hg.files]
      exact s.increfFCB_refcount f g
    · rw [hg.files]
      rfl
  table r _ := by
    refine table_congr (by rw [hg.files]; rfl) fun i g _ => ⟨?_, by rw [hg.opening]⟩
    rw [hg.files]
    exact s.increfFCB_stream f g
  alive r _ halive := by rw [hg.pstate, halive]
  owner v _ := by rw [hg.owner]
  threads := hg.threads.ge

/-- Only file tables changed, and only the one of `p`. -/
theorem within_files {t : FileTables} (hcovers : ({ s with toFileTables := t } : Streams).Covers R)
    (hFIDT : ∀ r, r ≠ p → t.FIDT r = s.FIDT r)
    (hstream : ∀ g, (t.FT g).stream = (s.FT g).stream) :
    Within (fun r => r = p) s { s with toFileTables := t } where
  covered := ⟨R, hcovers⟩
  table r hr := table_congr (hFIDT r hr) fun _ g _ => ⟨hstream g, rfl⟩
  alive _ _ halive := halive
  owner _ _ := rfl
  threads := le_rfl

/-! ## Fids are closed and duplicated -/

/-- An entry is cleared, and its reference is dropped. -/
theorem Covers.dropEntry (h : s.Covers R) {i : Int} (hf : s.FIDT p i = some f)
    (hFIDT : ∀ q j, s'.FIDT q j = if q = p ∧ j = i then none else s.FIDT q j)
    (hcalls : ∀ v, (s'.pc v).fcb = (s.pc v).fcb)
    (hcount : ∀ g, (s'.FT g).refcount =
      if g = f then (s.FT g).refcount - 1 else (s.FT g).refcount)
    (hfree : s'.freelist = if (s.FT f).refcount = 1 then s.freelist ++ [f] else s.freelist)
    (hstream : ∀ g, (s'.FT g).stream = (s.FT g).stream) (hopening : s'.opening = s.opening)
    (hpstate : s'.pstate = s.pstate) (howner : s'.owner = s.owner)
    (hthreads : s'.threads = s.threads) : Within (fun r => r = p) s s' where
  covered := by
    have hentry : s.refers f (.entry p i) := hf
    refine ⟨_, h.dropRef hentry (fun g r hr => ?_) hcount hfree⟩
    cases r with
    | entry q j =>
      have hr : s'.FIDT q j = some g := hr
      rw [hFIDT] at hr
      split at hr
      · cases hr
      · rename_i hne
        exact ⟨fun he => hne (Ref.entry.inj he), hr⟩
    | thread v =>
      have hr : (s'.pc v).fcb = some g := hr
      rw [hcalls] at hr
      exact ⟨by simp, hr⟩
  table r hr := by
    refine table_congr (funext fun j => ?_) fun _ g _ => ⟨hstream g, congrFun hopening g⟩
    rw [hFIDT, if_neg fun hn => hr hn.1]
  alive r _ halive := by rw [hpstate, halive]
  owner v _ := congrFun howner v
  threads := hthreads.ge

theorem Covers.sysClose (h : s.Covers R) {fd : Int} (hs : s.sysClose p fd = some s') :
    Within (fun r => r = p) s s' := by
  unfold Streams.sysClose at hs
  split at hs
  · cases hs
    exact h.quiet (.refl s)
  · rename_i f hf
    have hd := decref_of hs
    refine h.dropEntry (getFCB_eq hf) (fun q i => ?_) (fun v => StreamPc.fcb_eq (hd.place v))
      hd.refcount hd.freelist hd.stream hd.opening hd.pstate hd.owner hd.threads
    rw [hd.FIDT, setEntry_FIDT]

/-- An entry is set to an FCB in use. -/
theorem Covers.addEntry (h : s.Covers R) (fd : Int) (hf : f ∉ s.freelist) :
    Within (fun r => r = p) s { s with toFileTables := (s.increfFCB f).setEntry p fd (some f) } := by
  refine within_files (h.addRef (r := .entry p fd) hf (fun g r hr => ?_) (s.increfFCB_refcount f)
    rfl) (fun r hr => funext fun i => ?_) (s.increfFCB_stream f)
  · cases r with
    | entry q i =>
      have hr : ((s.increfFCB f).setEntry p fd (some f)).FIDT q i = some g := hr
      rw [setEntry_FIDT] at hr
      split at hr
      · rename_i he
        exact .inl ⟨(Option.some.inj hr).symm, by rw [he.1, he.2]⟩
      · exact .inr hr
    | thread v => exact .inr hr
  · rw [setEntry_FIDT, if_neg fun hn => hr hn.1, increfFCB_FIDT]

theorem Covers.sysDup2 (h : s.Covers R) {oldfd newfd : Int}
    (hs : s.sysDup2 p oldfd newfd = some s') : Within (fun r => r = p) s s' := by
  unfold Streams.sysDup2 at hs
  split at hs
  · cases hs
    exact h.quiet (.refl s)
  split at hs
  · cases hs
    exact h.quiet (.refl s)
  rename_i f hf
  have hfree : f ∉ s.freelist := h.notMem_freelist (r := .entry p oldfd) (getFCB_eq hf)
  simp only at hs
  split at hs
  · cases hs
    exact h.quiet (.refl s)
  rename_i hne
  obtain ⟨s₁, hs₁, rfl⟩ := Option.map_eq_some_iff.mp hs
  cases hg : s.getFCB p newfd with
  | none =>
    rw [hg] at hs₁
    obtain rfl := Option.some.inj hs₁
    exact h.addEntry _ hfree
  | some g =>
    rw [hg] at hs₁ hne
    -- As if `newfd` had been closed before.
    have hd : Decref s s₁ g := decref_of hs₁
    have hclosed : Within (fun r => r = p) s
        { s₁ with toFileTables := s₁.setEntry p newfd none } := by
      refine h.dropEntry (getFCB_eq hg) (fun q i => ?_) (fun v => StreamPc.fcb_eq (hd.place v))
        hd.refcount hd.freelist hd.stream hd.opening hd.pstate hd.owner hd.threads
      rw [setEntry_FIDT, hd.FIDT]
    obtain ⟨R', hR'⟩ := hclosed.covered
    have hfg : f ≠ g := fun he => hne (by rw [he])
    have hstill : f ∉ s₁.freelist := by
      rw [hd.freelist]
      split
      · intro hm
        rcases List.mem_append.mp hm with hm | hm
        · exact hfree hm
        · exact hfg (List.mem_singleton.mp hm)
      · exact hfree
    have hset := hR'.addEntry (f := f) (p := p) newfd hstill
    simp only [setEntry_increfFCB_setEntry] at hset
    exact hclosed.trans hset

/-- `Exit` clears an entry. -/
theorem Covers.exitEntry (h : s.Covers R) {i : Int} (hu : s.pc u = .exiting i)
    (hs : s.exitEntry (s.owner u) i = some s₁) :
    Within (fun r => r = s.owner u) s (s₁.goto u (.exiting (i + 1))) := by
  obtain ⟨s₂, hs₂, rfl⟩ := Option.map_eq_some_iff.mp hs
  have hcall : ∀ s' : Streams, (∀ v, (s'.pc v).place = (s.pc v).place) →
      ∀ v, ((s'.goto u (.exiting (i + 1))).pc v).fcb = (s.pc v).fcb := by
    intro s' hplace v
    by_cases hv : v = u
    · subst hv
      rw [goto_pc, hu]
      rfl
    · simp only [goto, Function.update_of_ne hv]
      exact StreamPc.fcb_eq (hplace v)
  cases hf : s.FIDT (s.owner u) i with
  | none =>
    rw [hf] at hs₂
    obtain rfl := Option.some.inj hs₂
    have hsame : s.setEntry (s.owner u) i none = s.toFileTables := by
      simp only [setEntry, ← hf, Function.update_eq_self]
    simp only [hsame]
    exact h.moves rfl (fun v g => goto_fcb rfl) rfl (fun _ _ halive => halive) (fun _ _ => rfl)
      le_rfl
  | some f =>
    rw [hf] at hs₂
    have hd : Decref s s₂ f := decref_of hs₂
    refine h.dropEntry hf (fun q j => ?_) (hcall _ hd.place) hd.refcount hd.freelist hd.stream
      hd.opening hd.pstate hd.owner hd.threads
    rw [← hd.FIDT]
    exact setEntry_FIDT ..

/-- A `Read` or a `Write` drops its reference. -/
theorem Covers.returns (h : s.Covers R) (hu : s.pc u = .returning f)
    (hs : { s.goto u .running with lock := none }.decrefFCB p f = some s') : Within P s s' where
  covered := by
    have hd := decref_of hs
    have hcall : s.refers f (.thread u) := by
      show (s.pc u).fcb = some f
      rw [hu]
      rfl
    refine ⟨_, h.dropRef hcall (fun g r hr => ?_) hd.refcount hd.freelist⟩
    cases r with
    | entry q i =>
      have hr : s'.FIDT q i = some g := hr
      rw [hd.FIDT] at hr
      exact ⟨by simp, hr⟩
    | thread v =>
      have hr : (s'.pc v).fcb = some g := hr
      rw [StreamPc.fcb_eq (hd.place v)] at hr
      refine ⟨fun he => ?_, goto_fcb rfl hr⟩
      obtain rfl := Ref.thread.inj he
      simp only [goto_pc] at hr
      cases hr
  table r _ := by
    have hd := decref_of hs
    exact table_congr (by rw [hd.FIDT]; rfl) fun _ g _ => ⟨hd.stream g, congrFun hd.opening g⟩
  alive r _ halive := by rw [(decref_of hs).pstate]; exact halive
  owner v _ := congrFun (decref_of hs).owner v
  threads := (decref_of hs).threads.ge

/-! ## Fids are reserved and opened -/

/-- An entry is set to an FCB that was acquired. -/
theorem Covers.installAll (es : List (Int × Nat)) (h : s.Covers R)
    (hes : ∀ e ∈ es, e.2 ∉ s.freelist) :
    Within (fun r => r = p) s { s with toFileTables := es.foldl (install p) s.toFileTables } := by
  induction es generalizing s R with
  | nil => exact h.quiet (.refl s)
  | cons e es ih =>
    have hfirst : Within (fun r => r = p) s
        { s with toFileTables := install p s.toFileTables e } :=
      h.addEntry _ (hes e List.mem_cons_self)
    obtain ⟨R', hR'⟩ := hfirst.covered
    exact hfirst.trans (ih hR' fun e' he' => hes e' (List.mem_cons_of_mem _ he'))

theorem Covers.acquire (h : s.Covers R) (num : Nat) :
    Within P s { s with toFileTables := (acquireFCBs num s.toFileTables).2 } := by
  obtain ⟨-, hlist, hcount⟩ := acquireFCBs_eq num s.toFileTables h.nodup
  obtain ⟨hFIDT, hstream, -⟩ := acquireFCBs_frame num s.toFileTables
  have hcovers : ({ s with toFileTables := (acquireFCBs num s.toFileTables).2 } : Streams).Covers
      R := by
    refine h.keep (fun g r hr => ?_) (fun g => ?_) ?_ ?_
    · cases r with
      | entry q i =>
        have hr : (acquireFCBs num s.toFileTables).2.FIDT q i = some g := hr
        rwa [hFIDT] at hr
      | thread v => exact hr
    · rw [hcount]
      split
      · rename_i hm
        exact .inr ⟨List.mem_of_mem_take hm, le_rfl⟩
      · exact .inl rfl
    · rw [hlist]
      exact fun g hg => List.mem_of_mem_drop hg
    · rw [hlist]
      exact h.nodup.sublist (List.drop_sublist num _)
  exact ⟨⟨R, hcovers⟩, fun r _ => table_congr (congrFun hFIDT r) fun _ g _ => ⟨hstream g, rfl⟩,
    fun _ _ halive => halive, fun _ _ => rfl, le_rfl⟩

/-- The roll-back gives back the FCBs that were acquired. -/
theorem Covers.reserveNone (h : s.Covers R) {num : Nat} {t : FileTables}
    (hr : s.reserveFCB num p = (none, t)) : Within P s { s with toFileTables := t } := by
  obtain ⟨hFIDT, hperm⟩ := reserveFCB_none h.nodup hr
  have hstream : ∀ g, (t.FT g).stream = (s.FT g).stream := fun g => by
    have := s.reserveFCB_stream num p g
    rwa [hr] at this
  have hcount : ∀ g, (t.FT g).refcount = (s.FT g).refcount ∨
      g ∈ s.freelist ∧ 0 ≤ (t.FT g).refcount := by
    intro g
    obtain ⟨-, -, hacquired⟩ := acquireFCBs_eq num s.toFileTables h.nodup
    unfold reserveFCB at hr
    simp only at hr
    split at hr
    · cases hr
      exact .inl rfl
    split at hr
    · obtain ⟨-, rfl⟩ := Prod.mk.inj hr
      rw [(releaseFCBs_frame _ _).2, hacquired]
      split
      · rename_i hm
        exact .inr ⟨List.mem_of_mem_take hm, le_rfl⟩
      · exact .inl rfl
    · cases hr
  refine ⟨⟨R, h.keep (fun g r hrefers => ?_) hcount (fun g hg => hperm.subset hg)
    (hperm.nodup_iff.mpr h.nodup)⟩, fun r _ => table_congr (congrFun hFIDT r) fun _ g _ =>
      ⟨hstream g, rfl⟩, fun _ _ halive => halive, fun _ _ => rfl, le_rfl⟩
  cases r with
  | entry q i =>
    have hrefers : t.FIDT q i = some g := hrefers
    rwa [hFIDT] at hrefers
  | thread v => exact hrefers

/-- What was reserved is in no other table. -/
theorem Covers.reserveSome (h : s.Covers R) {num : Nat} {es : List (Int × Nat)} {t : FileTables}
    (hr : s.reserveFCB num p = (some es, t)) :
    Within (fun r => r = p) s { s with toFileTables := t } ∧
      ∀ e ∈ es, ∀ r, r ≠ p → ∀ i, t.FIDT r i ≠ some e.2 := by
  have hres := reserved h.nodup hr
  constructor
  · have hacquire : Within (fun r => r = p) s _ := h.acquire num
    obtain ⟨R', hR'⟩ := hacquire.covered
    obtain ⟨t', hr', -⟩ | ⟨es', hr', -⟩ := s.reserveFCB_cases num p
    · rw [hr] at hr'
      cases hr'
    · rw [hr] at hr'
      obtain ⟨hes, rfl⟩ := Prod.mk.inj hr'
      obtain rfl := Option.some.inj hes
      refine hacquire.trans (hR'.installAll es fun e he => ?_)
      have hnot := (hres.acquired e.2 (List.mem_map_of_mem he)).2.1
      rwa [install_foldl_freelist] at hnot
  · intro e he r hne i hi
    rw [hres.others r i fun heq => absurd heq hne] at hi
    exact h.notMem_freelist (r := .entry r i) hi (hres.acquired e.2 (List.mem_map_of_mem he)).1

/-- A stream is opened in an FCB that no other process has. -/
theorem Covers.openFCB (h : s.Covers R) (hf : ∀ r, r ≠ p → ∀ i, s.FIDT r i ≠ some f)
    (st : Stream) : Within (fun r => r = p) s (s.openFCB f st) where
  covered := by
    refine ⟨R, h.keep (fun g r hr => ?_) (fun g => .inl ?_) (fun g hg => hg) h.nodup⟩
    · cases r <;> exact hr
    · simp only [Streams.openFCB, modifyFCB_FT]
      split <;> rfl
  table r hr := by
    refine table_congr rfl fun i g hg => ?_
    have hne : g ≠ f := fun he => hf r hr i (he ▸ hg)
    simp only [Streams.openFCB, modifyFCB_FT, Function.update_of_ne hne, if_neg hne, and_self]
  alive _ _ halive := halive
  owner _ _ := rfl
  threads := le_rfl

/-- What was reserved is taken back. -/
theorem Covers.unreserve (h : s.Covers R) {i : Int} {t : FileTables}
    (hr : s.reserveFCB 1 p = (some [(i, f)], t)) :
    Within P s { s with toFileTables := t.unreserveFCB p [(i, f)] } := by
  have hres := reserved h.nodup hr
  have hfree : f ∈ s.freelist := (hres.acquired f (by simp)).1
  obtain ⟨u, hu, hFIDT, hperm⟩ := hres.undone
  rw [unreserveAsserted_eq p _ t (by simp) hres.entered] at hu
  obtain rfl := Option.some.inj hu
  have hFT : (t.unreserveFCB p [(i, f)]).FT = t.FT := rfl
  have hstream : ∀ g, (t.FT g).stream = (s.FT g).stream := fun g => by
    have := s.reserveFCB_stream 1 p g
    rwa [hr] at this
  have hcount : ∀ g, g ≠ f → (t.FT g).refcount = (s.FT g).refcount := by
    intro g hg
    obtain ⟨t', hr', -⟩ | ⟨es', hr', -⟩ := s.reserveFCB_cases 1 p
    · rw [hr] at hr'
      cases hr'
    · rw [hr] at hr'
      obtain ⟨hes, rfl⟩ := Prod.mk.inj hr'
      obtain rfl := Option.some.inj hes
      obtain ⟨-, -, hacquired⟩ := acquireFCBs_eq 1 s.toFileTables h.nodup
      have hnot : g ∉ s.freelist.take 1 := by
        rw [hres.remaining]
        simpa using hg
      rw [install_foldl_refcount _ _ _ _ (by simp), if_neg (by simpa using hg), hacquired,
        if_neg hnot]
  refine ⟨⟨R, h.keep (fun g r hrefers => ?_) (fun g => ?_) (fun g hg => hperm.subset hg)
    (hperm.nodup_iff.mpr h.nodup)⟩, fun r _ => table_congr (congrFun hFIDT r) fun _ g _ =>
      ⟨hstream g, rfl⟩, fun _ _ halive => halive, fun _ _ => rfl, le_rfl⟩
  · cases r with
    | entry q j =>
      have hrefers : (t.unreserveFCB p [(i, f)]).FIDT q j = some g := hrefers
      rwa [hFIDT] at hrefers
    | thread v => exact hrefers
  · rw [hFT]
    by_cases hg : g = f
    · subst hg
      rw [(hres.acquired g (by simp)).2.2]
      exact .inr ⟨hfree, Int.one_nonneg⟩
    · exact .inl (hcount g hg)

theorem Covers.openStream (h : s.Covers R) (device : Option Stream) :
    Within (fun r => r = p) s (s.openStream p device) := by
  unfold Streams.openStream
  obtain ⟨t, hr⟩ | ⟨fid, f, t, hr, -⟩ := s.reserveFCB_one_cases p
  · rw [hr]
    exact h.reserveNone hr
  · rw [hr]
    cases device with
    | none => exact h.unreserve hr
    | some st =>
      obtain ⟨hreserve, hother⟩ := h.reserveSome hr
      obtain ⟨R', hR'⟩ := hreserve.covered
      exact hreserve.trans (hR'.openFCB (hother (fid, f) (by simp)) st)

theorem Covers.sysPipe (h : s.Covers R) {malloc : Bool} (hs : s.sysPipe p malloc = some s') :
    Within (fun r => r = p) s s' := by
  unfold Streams.sysPipe at hs
  obtain ⟨t, hr⟩ | ⟨i₀, f₀, i₁, f₁, t, hr⟩ := s.reserveFCB_two_cases p
  · rw [hr] at hs
    cases hs
    exact h.reserveNone hr
  · rw [hr] at hs
    obtain ⟨hreserve, hother⟩ := h.reserveSome hr
    obtain ⟨R₁, hR₁⟩ := hreserve.covered
    cases malloc with
    | false => exact absurd hs (by simp [newPipe])
    | true =>
      simp only [newPipe, if_true, Option.some.injEq] at hs
      subst hs
      have hnew : Within (fun r => r = p) _ _ :=
        hR₁.quiet (quiet_newPipe { s with toFileTables := t } true)
      obtain ⟨R₂, hR₂⟩ := hnew.covered
      have hread := hR₂.openFCB (hother (i₀, f₀) (by simp)) (.reader s.pipes)
      obtain ⟨R₃, hR₃⟩ := hread.covered
      exact ((hreserve.trans hnew).trans hread).trans
        (hR₃.openFCB (hother (i₁, f₁) (by simp)) (.writer s.pipes))

theorem Covers.sysSocket (h : s.Covers R) (port : Int) (malloc : Bool) :
    Within (fun r => r = p) s (s.sysSocket p port malloc).2 := by
  unfold Streams.sysSocket
  split
  · exact h.quiet (.refl s)
  · obtain ⟨t, hr⟩ | ⟨fid, f, t, hr, -⟩ := s.reserveFCB_one_cases p
    · rw [hr]
      exact h.reserveNone hr
    · rw [hr]
      obtain ⟨hreserve, hother⟩ := h.reserveSome hr
      obtain ⟨R₁, hR₁⟩ := hreserve.covered
      simp only
      split
      · have hnew : Within (fun r => r = p) { s with toFileTables := t }
            { s with
              toFileTables := t
              scb := Function.update s.scb s.scbs
                { refcount := 0, port := port, type := .unbound, reqQueue := none
                  peer := none, send := none, receive := none, fid := if port = 0 then 0 else fid }
              scbs := s.scbs + 1 } := hR₁.quiet (.of_pc (fun _ => rfl) rfl)
        obtain ⟨R₂, hR₂⟩ := hnew.covered
        exact (hreserve.trans hnew).trans (hR₂.openFCB (hother (fid, f) (by simp)) _)
      · exact hreserve

theorem Covers.acceptRequest (h : s.Covers R) {l : Nat} {m : Mallocs}
    (hs : s.acceptRequest p l m = some s') : Within (fun r => r = p) s s' := by
  unfold Streams.acceptRequest at hs
  split at hs
  case h_2 => exact absurd hs (by simp)
  rename_i r rs _
  simp only at hs
  have hpop : Within (fun r => r = p) s (s.popRequest l r rs) := h.quiet (quiet_popRequest ..)
  obtain ⟨R₁, hR₁⟩ := hpop.covered
  have hsocket := hR₁.sysSocket (p := p) ((s.popRequest l r rs).scb l).port m.scb
  obtain ⟨R₂, hR₂⟩ := hsocket.covered
  split at hs
  · rename_i s₂ hsock
    cases hs
    rw [hsock] at hsocket hR₂
    exact (hpop.trans hsocket).trans (hR₂.quiet (quiet_signalConn s₂ r))
  · rename_i fid s₂ hsock
    rw [hsock] at hsocket hR₂
    split at hs
    · cases hs
      exact (hpop.trans hsocket).trans (hR₂.quiet (quiet_connectPeers ..))
    · exact absurd hs (by simp)

/-! ## Processes begin and end -/

/-- An entry is cleared that nothing was counted for, or whose count stays too high. -/
theorem Covers.clearEntry (h : s.Covers R) (i : Int) :
    Within (fun r => r = p) s { s with toFileTables := s.setEntry p i none } := by
  refine within_files (h.keep (fun g r hr => ?_) (fun g => .inl rfl) (fun g hg => hg) h.nodup)
    (fun r hr => funext fun j => ?_) fun _ => rfl
  · cases r with
    | entry q j =>
      have hr : (s.setEntry p i none).FIDT q j = some g := hr
      rw [setEntry_FIDT] at hr
      split at hr
      · cases hr
      · exact hr
    | thread v => exact hr
  · rw [setEntry_FIDT, if_neg fun hn => hr hn.1]

theorem Covers.inherit (is : List Int) {q : Nat} (h : s.Covers R) :
    Within (fun r => r = q) s { s with toFileTables := s.inherit p q is } := by
  induction is generalizing s R with
  | nil => exact h.quiet (.refl s)
  | cons i is ih =>
    have hself : (s.setEntry q i (s.FIDT p i)).FIDT q i = s.FIDT p i := by simp [setEntry]
    rw [FileTables.inherit]
    simp only [hself]
    cases hp : s.FIDT p i with
    | none =>
      have hclear := h.clearEntry (p := q) i
      obtain ⟨R', hR'⟩ := hclear.covered
      exact hclear.trans (ih hR')
    | some f =>
      have hset := h.addEntry (p := q) i (h.notMem_freelist (r := .entry p i) hp)
      obtain ⟨R', hR'⟩ := hset.covered
      exact hset.trans (ih hR')

theorem Covers.spawnThread (h : s.Covers R) (p : Nat) : Within P s (s.spawnThread p) := by
  refine h.moves rfl (fun v g hv => ?_) rfl (fun _ _ halive => halive) (fun v hv => ?_)
    (Nat.le_succ _)
  · have hv : ((Function.update s.pc s.threads .running) v).fcb = some g := hv
    rw [Function.update_apply] at hv
    split at hv
    · cases hv
    · exact hv
  · exact Function.update_of_ne (Nat.ne_of_lt hv) ..

theorem Covers.sysExec (h : s.Covers R) (p q : Nat) (call : Bool) :
    Within (fun r => r = q) s (s.sysExec p q call) := by
  have halive : Within (fun r => r = q) s
      { s with pstate := Function.update s.pstate q .alive } := by
    refine h.moves rfl (fun _ _ hv => hv) rfl (fun r hr halive => ?_) (fun _ _ => rfl) le_rfl
    show Function.update s.pstate q .alive r = .alive
    rwa [Function.update_of_ne hr]
  obtain ⟨R₁, hR₁⟩ := halive.covered
  have hinherit := hR₁.inherit (p := p) (q := q) fids
  obtain ⟨R₂, hR₂⟩ := hinherit.covered
  unfold Streams.sysExec
  simp only
  split
  · exact (halive.trans hinherit).trans (hR₂.spawnThread q)
  · exact halive.trans hinherit

/-! ## The steps -/

theorem Covers.call (h : s.Covers R) (ha : caller a = some u) (hs : s.call u a = some s') :
    Within (s.changes a) s s' := by
  cases a with
  | openNull v =>
    cases hs
    obtain rfl := Option.some.inj ha
    exact (h.openStream _).mono fun r hr => hr.symm
  | openTerminal v termno =>
    cases hs
    obtain rfl := Option.some.inj ha
    exact (h.openStream _).mono fun r hr => hr.symm
  | pipe v malloc =>
    obtain rfl := Option.some.inj ha
    exact (h.sysPipe hs).mono fun r hr => hr.symm
  | socket v port malloc =>
    cases hs
    obtain rfl := Option.some.inj ha
    exact (h.sysSocket port malloc).mono fun r hr => hr.symm
  | openInfo v info table copied =>
    obtain ⟨r, hr, rfl⟩ := Option.map_eq_some_iff.mp hs
    obtain rfl := Option.some.inj ha
    rcases sysOpenInfo_cases hr with ⟨index, he⟩ | ⟨-, he⟩
    · rw [he]
      have hc : ({ s with infoIndex := index } : Streams).Covers R :=
        ⟨h.refs, h.count, h.free, h.nodup⟩
      obtain ⟨hcov, htable, halive, howner, hthreads⟩ := hc.openStream (p := s.owner v) (some .info)
      exact ⟨hcov, fun r hr => htable r (Ne.symm hr), fun r hr => halive r (Ne.symm hr), howner,
        hthreads⟩
    · rw [he]
      cases hres : s.reserveFCB 1 (s.owner v) with
      | mk o t =>
        cases o with
        | none => exact h.reserveNone hres
        | some es => exact (h.reserveSome hres).1.mono fun r hr => hr.symm
  | listen v sock =>
    cases hs
    exact h.quiet (quiet_sysListen ..)
  | accept v lsock m =>
    obtain rfl := Option.some.inj ha
    rcases sysAccept_goes hs with hq | ⟨hg, hcall⟩ | ⟨l, hs⟩
    · exact h.quiet hq
    · exact h.goes hg fun g hv => by rw [hcall] at hv; cases hv
    · have hacc : Within (s.changes (.accept v lsock m)) s (s.access l) :=
        h.quiet (quiet_access s l)
      obtain ⟨R₁, hR₁⟩ := hacc.covered
      exact hacc.trans ((hR₁.acceptRequest hs).mono fun r hr => hr.symm)
  | connect v sock port malloc =>
    rcases sysConnect_goes hs with hq | ⟨hg, hcall⟩
    · exact h.quiet hq
    · exact h.goes hg fun g hv => by rw [hcall] at hv; cases hv
  | shutDown v sock how =>
    cases hs
    exact h.quiet (quiet_sysShutDown ..)
  | read v fd size data =>
    rcases sysRead_cases hs with rfl | ⟨f, hf, hg, hcall⟩
    · exact h.quiet (.refl _)
    · exact h.begins hf hg hcall
  | write v fd buf size =>
    rcases sysWrite_cases hs with rfl | ⟨f, hf, hg, hcall⟩
    · exact h.quiet (.refl _)
    · exact h.begins hf hg hcall
  | close v fd =>
    obtain rfl := Option.some.inj ha
    exact (h.sysClose hs).mono fun r hr => hr.symm
  | dup2 v oldfd newfd =>
    obtain rfl := Option.some.inj ha
    exact (h.sysDup2 hs).mono fun r hr => hr.symm
  | exec v q call =>
    obtain ⟨-, hs⟩ := Option.ite_none_right_eq_some.mp hs
    cases hs
    exact (h.sysExec _ q call).mono fun r hr => hr.symm
  | createThread v =>
    cases hs
    exact h.spawnThread _
  | exit v =>
    cases hs
    exact h.moves rfl (fun _ _ => goto_fcb rfl) rfl (fun _ _ halive => halive) (fun _ _ => rfl)
      le_rfl
  | reap | resume | proceed | rxReady | timeout => exact absurd ha (by simp [caller])

theorem Covers.resume (h : s.Covers R) {data : Bool} {m : Mallocs}
    (hs : s.resume u data m = some s') : Within (s.changes (.resume u data m)) s s' := by
  have hgoes : ∀ {g : Nat} {t : Streams}, (s.pc u).fcb = some g →
      Goes s t u ∧ (t.pc u).fcb = some g → Within (s.changes (.resume u data m)) s t :=
    fun hf hg => h.goes hg.1 fun g hv => by rw [hf, ← hg.2, hv]
  have hanswers : ∀ r w, Within (s.changes (.resume u data m)) s (s.resumeConnect u r w) := by
    intro r w
    obtain ⟨hg, hcall⟩ := resumeConnect_goes s u r w
    exact h.goes hg fun g hv => by rw [hcall] at hv; cases hv
  unfold Streams.resume at hs
  split at hs
  · rename_i f q size hu
    cases hs
    exact hgoes (by rw [hu]; rfl) (goes_pipeReadStretch (.refl s) ..)
  · rename_i f q buf size hu
    cases hs
    exact hgoes (by rw [hu]; rfl) (goes_endWrite (.refl s) ..)
  · rename_i f size hu
    cases hs
    exact hgoes (by rw [hu]; rfl) (goes_serialReadStretch ..)
  · rename_i l hu
    obtain ⟨s₁, ⟨hg, hcall⟩, hs⟩ := resumeAccept_goes hs
    have hmoves : Within (s.changes (.resume u data m)) s s₁ :=
      h.goes hg fun g hv => by rw [hcall] at hv; cases hv
    rcases hs with rfl | hs
    · exact hmoves
    · obtain ⟨R₁, hR₁⟩ := hmoves.covered
      exact hmoves.trans ((hR₁.acceptRequest hs).mono fun r hr => ⟨hr.symm, l, true, hu⟩)
  · cases hs
    exact hanswers ..
  · cases hs
    exact hanswers ..
  · exact absurd hs (by simp)

theorem Covers.proceed (h : s.Covers R) (hs : s.proceed u = some s') :
    Within (s.changes (.proceed u)) s s' := by
  unfold Streams.proceed at hs
  split at hs
  · rename_i f hu
    exact h.returns hu hs
  · rename_i i hu
    have hself : ∀ r, r = s.owner u → s.changes (.proceed u) r := fun r hr => ⟨hr.symm, i, hu⟩
    split at hs
    · obtain ⟨s₁, hs₁, rfl⟩ := Option.map_eq_some_iff.mp hs
      exact (h.exitEntry hu hs₁).mono hself
    · cases hs
      refine h.moves rfl (fun _ _ => goto_fcb rfl) rfl (fun r hr halive => ?_) (fun _ _ => rfl)
        le_rfl
      show Function.update s.pstate (s.owner u) .zombie r = .alive
      rwa [Function.update_of_ne fun he => hr (hself r he)]
  · exact absurd hs (by simp)

/-- **A step changes no table but those in `changes`**, and keeps the invariant. -/
theorem within_perform (h : s.Covers R) (hs : s.perform a = some s') :
    Within (s.changes a) s s' := by
  rcases perform_cases hs with ⟨r, rfl, hr, rfl⟩ | ⟨v, data, m, rfl, -, hs⟩ | ⟨v, rfl, -, hs⟩ |
    ⟨rfl, rfl⟩ | ⟨v, r, rfl, hv, rfl⟩ | ⟨v, ha, -, -, hs⟩
  · -- Only the PCB of a zombie is released.
    refine h.moves rfl (fun _ _ hv => hv) rfl (fun q _ halive => ?_) (fun _ _ => rfl) le_rfl
    have hne : q ≠ r := fun he => by simp [he, hr] at halive
    show Function.update s.pstate r .free q = .alive
    rwa [Function.update_of_ne hne]
  · exact h.resume hs
  · exact h.proceed hs
  · exact h.quiet (.of_pc (fun _ => StreamPc.place_wakeSerial) rfl)
  · exact h.moves rfl (fun _ _ => goto_fcb rfl) rfl (fun _ _ halive => halive) (fun _ _ => rfl)
      le_rfl
  · exact h.call ha hs

theorem covers_initial (serialPorts : Nat) : (Streams.initial serialPorts).Covers fun _ => [] where
  refs f r hr := by
    cases r with
    | entry q i => exact absurd hr (by simp [refers, initial, initializeFiles])
    | thread v =>
      have hr : ((Streams.initial serialPorts).pc v).fcb = some f := hr
      by_cases hv : v = 0 <;> simp [initial, hv, StreamPc.fcb] at hr
  count _ := le_rfl
  free _ _ := rfl
  nodup := List.nodup_range'

/-- **In every reachable state**, an FCB to which something refers is not free. -/
theorem covered (hr : streamSys.Reach s) : ∃ R, s.Covers R := by
  refine Sys.InductiveIf.reachIf (I := fun s => ∃ R, s.Covers R) ⟨?_, ?_⟩ hr
  · rintro s ⟨serialPorts, rfl⟩
    exact ⟨_, covers_initial serialPorts⟩
  · rintro s a s' ⟨R, h⟩ - hs
    exact (within_perform h hs).covered

/-! ## What a call does to the table of its process -/

theorem table_openFCB (s : Streams) (f : Nat) (st : Stream) (r : Nat) (i : Int) :
    (s.openFCB f st).table r i =
      if s.FIDT r i = some f then some ⟨f, some st, s.opens⟩ else s.table r i := by
  have hFIDT : (s.openFCB f st).FIDT r i = s.FIDT r i := rfl
  rw [table, table, hFIDT]
  cases s.FIDT r i with
  | none => rfl
  | some g =>
    by_cases hg : g = f
    · subst hg
      simp
    · simp [Streams.openFCB, modifyFCB_FT, hg]

/-- The fids that were not reserved are as before, and denote none of the FCBs that were. -/
theorem Covers.table_reserve (h : s.Covers R) {num : Nat} {es : List (Int × Nat)} {t : FileTables}
    (hr : s.reserveFCB num p = (some es, t)) {i : Int} (hi : i ∉ es.map (·.1)) :
    ({ s with toFileTables := t } : Streams).table p i = s.table p i ∧
      ∀ e ∈ es, t.FIDT p i ≠ some e.2 := by
  have hres := reserved h.nodup hr
  have hFIDT : t.FIDT p i = s.FIDT p i := hres.others p i fun _ => hi
  constructor
  · show (t.FIDT p i).map _ = _
    rw [hFIDT]
    refine Option.map_congr fun g _ => ?_
    have := s.reserveFCB_stream num p g
    rw [hr] at this
    rw [this]
  · intro e he hentry
    rw [hFIDT] at hentry
    exact h.notMem_freelist (r := .entry p i) hentry
      (hres.acquired e.2 (List.mem_map_of_mem he)).1

/-- **A stream is opened** at a fid that was free. -/
theorem Covers.table_openStream (h : s.Covers R) {st : Stream} {i : Int}
    (hans : s.openStreamAnswer p (some st) = .fids [i]) :
    s.FreeFid p i ∧ ∃ file, (s.openStream p (some st)).table p =
      Function.update (s.table p) i (some file) := by
  unfold openStreamAnswer at hans
  obtain ⟨t, hr⟩ | ⟨fid, f, t, hr, -⟩ := s.reserveFCB_one_cases p
  · rw [hr] at hans
    cases hans
  · rw [hr] at hans
    obtain rfl : fid = i := by simpa using hans
    have hres := reserved h.nodup hr
    refine ⟨(hres.smallest fid (by simp)).1, ⟨f, some st, s.opens⟩, funext fun j => ?_⟩
    rw [Streams.openStream, hr]
    simp only [table_openFCB]
    by_cases hj : j = fid
    · subst hj
      rw [Function.update_self, if_pos (hres.entered (j, f) (by simp))]
    · obtain ⟨hsame, hnot⟩ := h.table_reserve hr (i := j) (by simpa using hj)
      rw [Function.update_of_ne hj, if_neg (hnot (fid, f) (by simp)), hsame]

theorem pstate_openStream (device : Option Stream) :
    (s.openStream p device).pstate = s.pstate := by
  unfold Streams.openStream
  split
  · split <;> rfl
  · rfl

theorem pstate_sysPipe {malloc : Bool} (hs : s.sysPipe p malloc = some s') :
    s'.pstate = s.pstate := by
  unfold Streams.sysPipe at hs
  split at hs
  · cases malloc <;> cases hs
    rfl
  · cases hs
    rfl

/-- **The two ends of a pipe**, at two fids that were free. -/
theorem Covers.table_sysPipe (h : s.Covers R) {malloc : Bool} {i j : Int}
    (hans : s.sysPipeAnswer p = .fids [i, j]) (hs : s.sysPipe p malloc = some s') :
    s.FreeFid p i ∧ s.FreeFid p j ∧ i ≠ j ∧ ∃ r w,
      r.stream = some (.reader s.pipes) ∧ w.stream = some (.writer s.pipes) ∧
      s'.table p = Function.update (Function.update (s.table p) i (some r)) j (some w) := by
  unfold sysPipeAnswer at hans
  unfold Streams.sysPipe at hs
  obtain ⟨t, hr⟩ | ⟨i₀, f₀, i₁, f₁, t, hr⟩ := s.reserveFCB_two_cases p
  · rw [hr] at hans
    cases hans
  · rw [hr] at hans hs
    obtain ⟨rfl, rfl⟩ : i₀ = i ∧ i₁ = j := by simpa using hans
    have hres := reserved h.nodup hr
    have hlt : i₀ < i₁ := by simpa using hres.increasing
    have hne : f₀ ≠ f₁ := by simpa using hres.distinct
    have hmalloc : malloc = true := by
      cases malloc with
      | true => rfl
      | false => exact absurd hs (by simp [newPipe])
    subst hmalloc
    obtain ⟨s₁, hfiles, hopening, rfl⟩ : ∃ s₁ : Streams, s₁.toFileTables = t ∧
        s₁.opening = s.opening ∧
        s' = (s₁.openFCB f₀ (.reader s.pipes)).openFCB f₁ (.writer s.pipes) :=
      ⟨(({ s with toFileTables := t } : Streams).newPipe true).2, rfl, rfl,
        (Option.some.inj hs).symm⟩
    have htable : s₁.table p = ({ s with toFileTables := t } : Streams).table p := by
      funext k
      simp only [table, hfiles, hopening]
    subst hfiles
    have hread := hres.entered (i₀, f₀) (by simp)
    have hwrite := hres.entered (i₁, f₁) (by simp)
    have hnot : s₁.FIDT p i₀ ≠ some f₁ := by
      rw [hread]
      exact fun he => hne (Option.some.inj he)
    refine ⟨(hres.smallest i₀ (by simp)).1, (hres.smallest i₁ (by simp)).1, Int.ne_of_lt hlt,
      ⟨f₀, some (.reader s.pipes), s₁.opens⟩, ⟨f₁, some (.writer s.pipes), s₁.opens + 1⟩, rfl, rfl,
      funext fun k => ?_⟩
    rw [table_openFCB, table_openFCB]
    show (if s₁.FIDT p k = some f₁ then _ else _) = _
    by_cases hk₁ : k = i₁
    · subst hk₁
      rw [Function.update_self, if_pos hwrite]
      rfl
    by_cases hk₀ : k = i₀
    · subst hk₀
      rw [Function.update_of_ne hk₁, Function.update_self, if_neg hnot, if_pos hread]
    · obtain ⟨hsame, hother⟩ := h.table_reserve hr (i := k) (by simp [hk₀, hk₁])
      rw [Function.update_of_ne hk₁, Function.update_of_ne hk₀, if_neg (hother (i₁, f₁) (by simp)),
        if_neg (hother (i₀, f₀) (by simp)), htable, hsame]

/-- `Dup2` copies an entry. -/
theorem table_sysDup2 {oldfd newfd : Int} (hold : 0 ≤ oldfd ∧ oldfd < MAX_FILEID)
    (hnew : 0 ≤ newfd ∧ newfd < MAX_FILEID) (hopen : s.table p oldfd ≠ none)
    (hs : s.sysDup2 p oldfd newfd = some s') :
    s'.table p = Function.update (s.table p) newfd (s.table p oldfd) := by
  obtain ⟨f, hf⟩ : ∃ f, s.FIDT p oldfd = some f := by
    refine Option.ne_none_iff_exists'.mp fun hnone => hopen ?_
    rw [table, hnone]
    rfl
  have hgetold : s.getFCB p oldfd = some f := by rw [getFCB, if_neg (by omega), hf]
  have hgetnew : s.getFCB p newfd = s.FIDT p newfd := by rw [getFCB, if_neg (by omega)]
  unfold Streams.sysDup2 at hs
  rw [if_neg (by omega), hgetold, hgetnew] at hs
  simp only at hs
  split at hs
  · -- They denote the same FCB already.
    rename_i hsame
    cases hs
    refine (Function.update_eq_self_iff.mpr ?_).symm
    rw [table, table, hf, hsame]
  · obtain ⟨s₁, hs₁, rfl⟩ := Option.map_eq_some_iff.mp hs
    have hkeep : s₁.FIDT = s.FIDT ∧ (∀ g, (s₁.FT g).stream = (s.FT g).stream) ∧
        s₁.opening = s.opening := by
      cases hg : s.FIDT p newfd with
      | none =>
        rw [hg] at hs₁
        obtain rfl := Option.some.inj hs₁
        exact ⟨rfl, fun _ => rfl, rfl⟩
      | some g =>
        rw [hg] at hs₁
        have hd : Decref s s₁ g := decref_of hs₁
        exact ⟨hd.FIDT, hd.stream, hd.opening⟩
    obtain ⟨hFIDT, hstream, hopening⟩ := hkeep
    funext i
    show (((s₁.increfFCB f).setEntry p newfd (some f)).FIDT p i).map
      (fun g => OpenFile.mk g ((s₁.increfFCB f).FT g).stream (s₁.opening g)) = _
    simp only [setEntry_FIDT, increfFCB_FIDT, increfFCB_stream, hFIDT, hstream, hopening, true_and,
      Function.update_apply]
    split
    · rw [table, hf]
    · rfl

theorem pstate_sysDup2 {oldfd newfd : Int} (hs : s.sysDup2 p oldfd newfd = some s') :
    s'.pstate = s.pstate := by
  unfold Streams.sysDup2 at hs
  split at hs
  · cases hs
    rfl
  split at hs
  · cases hs
    rfl
  dsimp only at hs
  split at hs
  · cases hs
    rfl
  obtain ⟨s₁, hs₁, rfl⟩ := Option.map_eq_some_iff.mp hs
  show s₁.pstate = s.pstate
  unfold decrefEntry at hs₁
  split at hs₁
  · obtain rfl := Option.some.inj hs₁
    rfl
  · exact (decref_of hs₁).pstate

theorem pstate_sysClose {fd : Int} (hs : s.sysClose p fd = some s') : s'.pstate = s.pstate := by
  unfold Streams.sysClose at hs
  split at hs
  · cases hs
    rfl
  · exact (decref_of hs).pstate

/-- `Close` clears an entry. -/
theorem table_sysClose {fd : Int} (hfd : 0 ≤ fd ∧ fd < MAX_FILEID)
    (hs : s.sysClose p fd = some s') : s'.table p = Function.update (s.table p) fd none := by
  have hget : s.getFCB p fd = s.FIDT p fd := by rw [getFCB, if_neg (by omega)]
  unfold Streams.sysClose at hs
  rw [hget] at hs
  cases hf : s.FIDT p fd with
  | none =>
    rw [hf] at hs
    obtain rfl := Option.some.inj hs
    refine (Function.update_eq_self_iff.mpr ?_).symm
    rw [table, hf]
    rfl
  | some f =>
    rw [hf] at hs
    have hd := decref_of hs
    funext i
    rw [table, hd.FIDT, setEntry_FIDT, Function.update_apply]
    simp only [true_and]
    split
    · rfl
    · refine Option.map_congr fun g _ => ?_
      rw [hd.stream, hd.opening]
      rfl

theorem inherit_FIDT (t : FileTables) {p q : Nat} (hne : p ≠ q) (is : List Int) (i : Int) :
    (t.inherit p q is).FIDT p i = t.FIDT p i ∧
      (t.inherit p q is).FIDT q i = if i ∈ is then t.FIDT p i else t.FIDT q i := by
  induction is generalizing t with
  | nil => exact ⟨rfl, rfl⟩
  | cons j is ih =>
    rw [FileTables.inherit]
    -- One entry: the FCBs it counts are no matter.
    have hentry : ∀ t' : FileTables, t'.FIDT = (t.setEntry q j (t.FIDT p j)).FIDT →
        (t'.inherit p q is).FIDT p i = t.FIDT p i ∧
          (t'.inherit p q is).FIDT q i = if i ∈ j :: is then t.FIDT p i else t.FIDT q i := by
      intro t' ht'
      obtain ⟨hp, hq⟩ := ih t'
      have hparent : t'.FIDT p i = t.FIDT p i := by
        rw [ht', setEntry_FIDT, if_neg fun hn => hne hn.1]
      rw [hp, hq, hparent, ht', setEntry_FIDT]
      refine ⟨rfl, ?_⟩
      by_cases hi : i = j
      · subst hi
        simp
      · simp [hi]
    split
    · exact hentry _ rfl
    · exact hentry _ rfl

/-- **A child inherits the table** of its parent. -/
theorem table_sysExec {q : Nat} (hne : p ≠ q) (call : Bool) {i : Int}
    (hi : 0 ≤ i ∧ i < MAX_FILEID) : (s.sysExec p q call).table q i = s.table p i := by
  have hinherit : ∀ s₁ : Streams, s₁.FIDT = (s.inherit p q fids).FIDT →
      s₁.FT = (s.inherit p q fids).FT → s₁.opening = s.opening →
      s₁.table q i = s.table p i := by
    intro s₁ hFIDT hFT hopening
    rw [table, hFIDT, (inherit_FIDT s.toFileTables hne fids i).2, if_pos (mem_fids.mpr hi)]
    refine Option.map_congr fun g _ => ?_
    rw [hFT, inherit_stream, hopening]
  unfold Streams.sysExec
  simp only
  split <;> exact hinherit _ rfl rfl rfl

end Streams

end TinyOS
