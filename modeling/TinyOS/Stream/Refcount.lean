import TinyOS.Stream.Frames

/-!
# Reference counts of streams

The FCB of a stream counts the file table entries that denote it and the `Read`s and `Write`s in
progress on it. **The count is exact in every state**, whatever the order in which processes share,
duplicate, inherit and drop their fids, and the stream is closed exactly when it reaches 0.

There is one way to spoil it. A `Socket` or `OpenInfo` whose `malloc` fails returns `NOFILE` and
leaves the fid reserved. Its FCB still holds the stream that it held last, and closing the fid calls
that stream's `Close` method a second time (`not_refcount_exact`).
-/

set_option autoImplicit false

namespace TinyOS

open Transition FileTables

namespace Streams

variable {s s' s₁ : Streams} {R : Nat → List Ref}

/-! ## The invariant -/

/-- The FCBs in `used` hold different open streams, and all streams that were opened are held or
have been closed, once. -/
structure Opened (s : Streams) (used : Nat → Prop) : Prop where
  stream : ∀ f, used f → (s.FT f).stream ≠ none
  opening : ∀ f, used f → s.opening f < s.opens ∧ s.opening f ∉ s.closes
  inj : ∀ f g, used f → used g → s.opening f = s.opening g → f = g
  all : ∀ i < s.opens, i ∈ s.closes ∨ ∃ f, used f ∧ s.opening f = i
  closes : s.closes.Nodup ∧ ∀ i ∈ s.closes, i < s.opens

/-- Where the threads and the processes stand. -/
structure Placed (s : Streams) : Prop where
  /-- Only processes that are alive have streams. -/
  alive : ∀ p, s.pstate p ≠ .alive → ∀ i, s.FIDT p i = none
  exiting : ∀ u i, s.pc u = .exiting i → s.lock = some u ∧ s.pstate (s.owner u) = .alive ∧
    ∀ j < i, s.FIDT (s.owner u) j = none
  returning : ∀ u f, s.pc u = .returning f → s.lock = some u
  born : ∀ u, s.threads ≤ u → s.pc u = .unborn

/-- `R f` lists the references to the FCB `f`. -/
structure Inv (s : Streams) (R : Nat → List Ref) : Prop where
  files : s.toFileTables.Inv (fun u => (s.pc u).fcb) R []
  opened : s.Opened fun f => R f ≠ []
  placed : s.Placed

theorem inv_initial (serialPorts : Nat) : (Streams.initial serialPorts).Inv fun _ => [] where
  files := by
    have hcalls : (fun u => ((Streams.initial serialPorts).pc u).fcb) = fun _ => none := by
      funext u
      by_cases hu : u = 0 <;> simp [initial, hu, StreamPc.fcb]
    rw [hcalls]
    exact inv_initializeFiles
  opened := by constructor <;> simp [initial]
  placed := by
    have hpc : ∀ u, (Streams.initial serialPorts).pc u = if u = 0 then .running else .unborn :=
      fun _ => rfl
    constructor
    case alive => exact fun _ _ _ => rfl
    case exiting => grind
    case returning => grind
    case born =>
      intro u hu
      have hu : 1 ≤ u := hu
      rw [hpc, if_neg (by omega)]

/-! ## The heap changes -/

theorem Opened.congr {used used' : Nat → Prop} (h : s.Opened used)
    (hused : ∀ f, used' f ↔ used f) (hstream : ∀ f, (s'.FT f).stream = (s.FT f).stream)
    (hopens : s'.opens = s.opens) (hopening : s'.opening = s.opening)
    (hcloses : s'.closes = s.closes) : s'.Opened used' := by
  have hused' : used' = used := funext fun f => propext (hused f)
  constructor <;> simp only [hused', hstream, hopens, hopening, hcloses]
  case stream => exact h.stream
  case opening => exact h.opening
  case inj => exact h.inj
  case all => exact h.all
  case closes => exact h.closes

theorem place_iff {pc pc' : StreamPc} (h : pc'.place = pc.place) {x : StreamPc}
    (hx : x = .unborn ∨ (∃ f, x = .returning f) ∨ ∃ i, x = .exiting i) : pc' = x ↔ pc = x := by
  have hplace : pc'.place = x ↔ pc' = x := StreamPc.eq_of_place (by tauto)
  rw [← hplace, h, StreamPc.eq_of_place (by tauto)]

theorem Inv.quiet (h : s.Inv R) (hq : Quiet s s') : s'.Inv R where
  files := by
    have hcalls : (fun u => (s'.pc u).fcb) = fun u => (s.pc u).fcb :=
      funext fun u => StreamPc.fcb_eq (hq.place u)
    rw [hq.files, hcalls]
    exact h.files
  opened := h.opened.congr (fun _ => Iff.rfl) (fun f => by rw [hq.files]) hq.opens hq.opening
    hq.closes
  placed := by
    have hunborn := fun u => place_iff (hq.place u) (.inl rfl)
    have hreturning := fun u f => place_iff (hq.place u) (.inr (.inl ⟨f, rfl⟩))
    have hexiting := fun u i => place_iff (hq.place u) (.inr (.inr ⟨i, rfl⟩))
    constructor <;> simp only [hunborn, hreturning, hexiting, hq.files, hq.pstate, hq.owner,
      hq.lock, hq.threads]
    case alive => exact h.placed.alive
    case exiting => exact h.placed.exiting
    case returning => exact h.placed.returning
    case born => exact h.placed.born

/-! ## A thread moves -/

/-- Thread `u` goes on, in a call on the same FCB as before or in none, as before; the others stay
where they are. -/
structure Goes (s s' : Streams) (u : Nat) : Prop where
  files : s'.toFileTables = s.toFileTables
  place : ∀ v, v ≠ u → (s'.pc v).place = (s.pc v).place
  born : s'.pc u ≠ .unborn
  exiting : ∀ i, s'.pc u ≠ .exiting i
  lock : s'.lock = some u ∨ s'.lock = s.lock ∧ ∀ f, s'.pc u ≠ .returning f
  pstate : s'.pstate = s.pstate
  owner : s'.owner = s.owner
  threads : s'.threads = s.threads
  opens : s'.opens = s.opens
  opening : s'.opening = s.opening
  closes : s'.closes = s.closes

theorem Goes.placed (h : s.Placed) {u : Nat} (hg : Goes s s' u) (hu : s.pc u ≠ .unborn)
    (hl : s.lock = none) : s'.Placed := by
  constructor
  case alive =>
    intro p hp i
    rw [hg.pstate] at hp
    rw [hg.files]
    exact h.alive p hp i
  case exiting =>
    intro v i hv
    have hne : v ≠ u := fun heq => hg.exiting i (heq ▸ hv)
    have := (h.exiting v i ((place_iff (hg.place v hne) (.inr (.inr ⟨i, rfl⟩))).mp hv)).1
    simp [hl] at this
  case returning =>
    intro v f hv
    by_cases hvu : v = u
    · subst hvu
      exact hg.lock.resolve_right fun hn => hn.2 f hv
    · have := h.returning v f ((place_iff (hg.place v hvu) (.inr (.inl ⟨f, rfl⟩))).mp hv)
      simp [hl] at this
  case born =>
    intro v hv
    rw [hg.threads] at hv
    have hb := h.born v hv
    have hne : v ≠ u := fun heq => hu (heq ▸ hb)
    exact (place_iff (hg.place v hne) (.inl rfl)).mpr hb

/-- It stays in the call that it is in, or in none. -/
theorem Inv.goes (h : s.Inv R) {u : Nat} (hg : Goes s s' u) (hu : s.pc u ≠ .unborn)
    (hl : s.lock = none) (hcall : (s'.pc u).fcb = (s.pc u).fcb) : s'.Inv R where
  files := by
    have hcalls : (fun v => (s'.pc v).fcb) = fun v => (s.pc v).fcb := by
      funext v
      by_cases hv : v = u
      · rw [hv, hcall]
      · exact StreamPc.fcb_eq (hg.place v hv)
    rw [hg.files, hcalls]
    exact h.files
  opened := h.opened.congr (fun _ => Iff.rfl) (fun f => by rw [hg.files]) hg.opens hg.opening
    hg.closes
  placed := hg.placed h.placed hu hl

/-- It begins a call on `f`. -/
theorem Inv.begins (h : s.Inv R) {u f : Nat} (hf : R f ≠ []) (hu : s.pc u = .running)
    (hl : s.lock = none) (hg : Goes { s with toFileTables := s.increfFCB f } s' u)
    (hcall : (s'.pc u).fcb = some f) : ∃ R', s'.Inv R' := by
  have hstream : ∀ g, (s'.FT g).stream = (s.FT g).stream := fun g => by
    rw [hg.files]
    exact s.increfFCB_stream f g
  have happ : R f ++ [.thread u] ≠ [] := List.concat_ne_nil _ _
  refine ⟨Function.update R f (R f ++ [.thread u]), ?_, ?_, ?_⟩
  · refine h.files.addRef hf (fun p i => ?_) (fun v => ?_) (fun g hm => ?_) (by simp) (fun g => ?_) ?_
    · rw [hg.files]
      simp
    · by_cases hv : v = u
      · simp [hv, hcall]
      · have hne : ¬ Ref.thread v = Ref.thread u := fun he => hv (Ref.thread.inj he)
        rw [if_neg hne]
        exact StreamPc.fcb_eq (hg.place v hv)
    · have := (h.files.threads g u).mp hm
      simp [hu, StreamPc.fcb] at this
    · rw [hg.files]
      exact s.increfFCB_refcount f g
    · rw [hg.files]
      rfl
  · refine h.opened.congr (fun g => ?_) hstream hg.opens hg.opening hg.closes
    simp only [Function.update_apply]
    split
    · rename_i hgf
      subst hgf
      exact iff_of_true happ hf
    · rfl
  · refine hg.placed ?_ (by simp [hu]) hl
    exact ⟨h.placed.alive, h.placed.exiting, h.placed.returning, h.placed.born⟩

/-! ## A reference is dropped -/

/-- Without its last reference, an FCB is closed. -/
theorem Opened.drop (h : s.Opened fun f => R f ≠ []) {f : Nat} {r : Ref} (hr : r ∈ R f)
    (hcount : (s.FT f).refcount = (R f).length)
    (hstream : ∀ g, (s'.FT g).stream = (s.FT g).stream) (hopens : s'.opens = s.opens)
    (hopening : s'.opening = s.opening)
    (hcloses : s'.closes = if (s.FT f).refcount = 1 then s.closes ++ [s.opening f] else s.closes) :
    s'.Opened fun g => Function.update R f ((R f).erase r) g ≠ [] := by
  have hf : R f ≠ [] := List.ne_nil_of_mem hr
  have hlen : ((R f).erase r).length = (R f).length - 1 := List.length_erase_of_mem hr
  have hpos : 0 < (R f).length := List.length_pos_of_mem hr
  have hlast : (s.FT f).refcount = 1 ↔ (R f).erase r = [] := by
    rw [← List.length_eq_zero_iff, hlen]
    omega
  simp only [hlast] at hcloses
  have hopen := h.opening f hf
  constructor <;> simp only [hstream, hopens, hopening, hcloses, Function.update_apply]
  case stream => have := h.stream; grind
  case opening => have := h.opening; have := h.inj; grind
  case inj => have := h.inj; grind
  case all => have := h.all; grind
  case closes => have := h.closes; grind

theorem Inv.drop (h : s.Inv R) {f : Nat} {r : Ref} (hr : r ∈ R f)
    (hentry : ∀ p i, s'.FIDT p i = if .entry p i = r then none else s.FIDT p i)
    (hcalls : ∀ u, (s'.pc u).fcb = if .thread u = r then none else (s.pc u).fcb)
    (hrefcount : ∀ g, (s'.FT g).refcount =
      if g = f then (s.FT g).refcount - 1 else (s.FT g).refcount)
    (hfree : s'.freelist = if (s.FT f).refcount = 1 then s.freelist ++ [f] else s.freelist)
    (hstream : ∀ g, (s'.FT g).stream = (s.FT g).stream) (hopens : s'.opens = s.opens)
    (hopening : s'.opening = s.opening)
    (hcloses : s'.closes = if (s.FT f).refcount = 1 then s.closes ++ [s.opening f] else s.closes)
    (hplaced : s'.Placed) : s'.Inv (Function.update R f ((R f).erase r)) where
  files := h.files.dropRef hr hentry hcalls hrefcount hfree
  opened := h.opened.drop hr (h.files.count f (List.ne_nil_of_mem hr)) hstream hopens hopening
    hcloses
  placed := hplaced

/-! ## Streams are opened -/

theorem Opened.openFCB {used : Nat → Prop} (h : s.Opened used) {f : Nat} (hf : ¬ used f)
    (st : Stream) : (s.openFCB f st).Opened fun g => used g ∨ g = f := by
  constructor <;> simp only [Streams.openFCB, modifyFCB_FT, Function.update_apply]
  case stream => have := h.stream; grind
  case opening => have := h.opening; have := h.closes; grind
  case inj => have := h.inj; have := h.opening; grind
  case all => have := h.all; grind
  case closes => have := h.closes; grind

/-- While no thread is in the middle of a call, entries come and go in processes that are alive. -/
theorem Placed.entries (h : s.Placed) (hl : s.lock = none) {p : Nat} (hp : s.pstate p = .alive)
    (hFIDT : ∀ q, q ≠ p → s'.FIDT q = s.FIDT q)
    (hpc : ∀ u, (s'.pc u).place = (s.pc u).place) (hlock : s'.lock = s.lock)
    (hpstate : s'.pstate = s.pstate) (hthreads : s'.threads = s.threads) : s'.Placed := by
  constructor <;> simp only [hlock, hpstate, hthreads]
  case alive =>
    intro q hq i
    have hne : q ≠ p := fun he => hq (he ▸ hp)
    rw [hFIDT q hne]
    exact h.alive q hq i
  case exiting =>
    intro u i hu
    have := (h.exiting u i ((place_iff (hpc u) (.inr (.inr ⟨i, rfl⟩))).mp hu)).1
    simp [hl] at this
  case returning =>
    intro u f hu
    exact h.returning u f ((place_iff (hpc u) (.inr (.inl ⟨f, rfl⟩))).mp hu)
  case born =>
    intro u hu
    exact (place_iff (hpc u) (.inl rfl)).mpr (h.born u hu)

/-- Nothing was reserved. -/
theorem Inv.reserveNone (h : s.Inv R) {t : FileTables} {num p : Nat}
    (hr : s.reserveFCB num p = (none, t)) : { s with toFileTables := t }.Inv R := by
  obtain ⟨hfiles, hFIDT, hstream⟩ := h.files.reserve_none hr
  refine ⟨hfiles, h.opened.congr (fun _ => Iff.rfl) hstream rfl rfl rfl, ?_⟩
  constructor <;> simp only [hFIDT]
  case alive => exact h.placed.alive
  case exiting => exact h.placed.exiting
  case returning => exact h.placed.returning
  case born => exact h.placed.born

/-- Some FCBs were reserved; their streams are not open yet. -/
theorem Inv.reserveSome (h : s.Inv R) (hl : s.lock = none) {t : FileTables} {num p : Nat}
    {es : List (Int × Nat)} (hp : s.pstate p = .alive)
    (hr : s.reserveFCB num p = (some es, t)) :
    t.Inv (fun u => (s.pc u).fcb) (installed R p es) [] ∧
      { s with toFileTables := t }.Opened (fun f => R f ≠ []) ∧
      { s with toFileTables := t }.Placed := by
  obtain ⟨hfiles, -, -, -, -, hstream, hFIDT⟩ := h.files.reserve_some hr
  exact ⟨hfiles, h.opened.congr (fun _ => Iff.rfl) hstream rfl rfl rfl,
    h.placed.entries hl hp hFIDT (fun _ => rfl) rfl rfl rfl⟩

/-- An FCB with its first reference gets its stream. -/
theorem Opened.install {f : Nat} {refs : List Ref} (h : s.Opened fun g => R g ≠ [])
    (hf : R f = []) (hrefs : refs ≠ []) (st : Stream) :
    (s.openFCB f st).Opened fun g => Function.update R f refs g ≠ [] := by
  refine (h.openFCB (f := f) (not_not.mpr hf) st).congr (fun g => ?_) (fun _ => rfl) rfl rfl rfl
  by_cases hg : g = f
  · subst hg
    simpa using hrefs
  · simp [hg]

theorem Placed.openFCB (h : s.Placed) (f : Nat) (st : Stream) : (s.openFCB f st).Placed :=
  ⟨h.alive, h.exiting, h.returning, h.born⟩

theorem Inv.openStream (h : s.Inv R) (hl : s.lock = none) {p : Nat} (hp : s.pstate p = .alive)
    (device : Option Stream) : ∃ R', (s.openStream p device).Inv R' := by
  unfold Streams.openStream
  obtain ⟨t, hr⟩ | ⟨fid, f, t, hr, -⟩ := s.reserveFCB_one_cases p
  · rw [hr]
    exact ⟨R, h.reserveNone hr⟩
  · rw [hr]
    obtain ⟨hfiles, hopened, hplaced⟩ := h.reserveSome hl hp hr
    have hf : R f = [] := ((h.files.reserve_some hr).2.2.2.2.1 _ (List.mem_singleton.mpr rfl)).1
    simp only [installed] at hfiles
    cases device with
    | none =>
      refine ⟨_, hfiles.unreserve (Function.update_self ..), ?_, ?_⟩
      · refine hopened.congr (fun g => ?_) (fun _ => rfl) rfl rfl rfl
        by_cases hg : g = f
        · subst hg
          simp [hf]
        · simp [hg]
      · refine hplaced.entries hl hp (fun q hq => ?_) (fun _ => rfl) rfl rfl rfl
        funext i
        exact (setEntry_FIDT t p q fid i none).trans (if_neg fun he => hq he.1)
    | some st =>
      exact ⟨_, hfiles.setStream f st, hopened.install hf (by simp) st, hplaced.openFCB f st⟩

theorem Inv.sysPipe (h : s.Inv R) (hl : s.lock = none) {p : Nat} (hp : s.pstate p = .alive)
    {malloc : Bool} (hs : s.sysPipe p malloc = some s') : ∃ R', s'.Inv R' := by
  unfold Streams.sysPipe at hs
  obtain ⟨t, hr⟩ | ⟨i₀, f₀, i₁, f₁, t, hr⟩ := s.reserveFCB_two_cases p
  · rw [hr] at hs
    cases hs
    exact ⟨R, h.reserveNone hr⟩
  · rw [hr] at hs
    cases malloc with
    | false => exact absurd hs (by simp [newPipe])
    | true =>
      simp only [newPipe, if_true, Option.some.injEq] at hs
      subst hs
      obtain ⟨hfiles, hopened, hplaced⟩ := h.reserveSome hl hp hr
      obtain ⟨-, -, -, hnd, hnew, -⟩ := h.files.reserve_some hr
      have hf₀ : R f₀ = [] := (hnew (i₀, f₀) (by simp)).1
      have hf₁ : R f₁ = [] := (hnew (i₁, f₁) (by simp)).1
      have hne : f₁ ≠ f₀ := by
        rintro rfl
        simp at hnd
      simp only [installed] at hfiles
      refine ⟨_, (hfiles.setStream f₀ _).setStream f₁ _, ?_, ?_⟩
      · refine Opened.install (R := Function.update R f₀ [.entry p i₀]) ?_ ?_ (by simp) _
        · refine Opened.install (R := R) ?_ hf₀ (by simp) _
          exact hopened.congr (fun _ => Iff.rfl) (fun _ => rfl) rfl rfl rfl
        · rw [Function.update_of_ne hne, hf₁]
      · exact ⟨hplaced.alive, hplaced.exiting, hplaced.returning, hplaced.born⟩

/-- `Socket`, if its `malloc` does not fail. -/
theorem Inv.sysSocket (h : s.Inv R) (hl : s.lock = none) {p : Nat} (hp : s.pstate p = .alive)
    (port : Int) : ∃ R', (s.sysSocket p port true).2.Inv R' := by
  unfold Streams.sysSocket
  split
  · exact ⟨R, h⟩
  · obtain ⟨t, hr⟩ | ⟨fid, f, t, hr, -⟩ := s.reserveFCB_one_cases p
    · rw [hr]
      exact ⟨R, h.reserveNone hr⟩
    · rw [hr]
      obtain ⟨hfiles, hopened, hplaced⟩ := h.reserveSome hl hp hr
      have hf : R f = [] := ((h.files.reserve_some hr).2.2.2.2.1 _ (List.mem_singleton.mpr rfl)).1
      simp only [installed] at hfiles
      refine ⟨_, hfiles.setStream f _, Opened.install ?_ hf (by simp) _, ?_⟩
      · exact hopened.congr (fun _ => Iff.rfl) (fun _ => rfl) rfl rfl rfl
      · exact ⟨hplaced.alive, hplaced.exiting, hplaced.returning, hplaced.born⟩

/-! ## Fids are closed -/

theorem getFCB_eq {t : FileTables} {p f : Nat} {fid : Int} (h : t.getFCB p fid = some f) :
    t.FIDT p fid = some f := by
  unfold getFCB at h
  split at h
  · exact absurd h (by simp)
  · exact h

theorem Inv.sysClose (h : s.Inv R) (hl : s.lock = none) {p : Nat} (hp : s.pstate p = .alive)
    {fd : Int} (hs : s.sysClose p fd = some s') : ∃ R', s'.Inv R' := by
  unfold Streams.sysClose at hs
  split at hs
  · cases hs
    exact ⟨R, h⟩
  · rename_i f hf
    have hd := decref_of hs
    have hentry := getFCB_eq hf
    refine ⟨_, h.drop (r := .entry p fd) ((h.files.entries f p fd).mpr hentry) (fun q i => ?_)
      (fun u => ?_) hd.refcount hd.freelist hd.stream hd.opens hd.opening hd.closes ?_⟩
    · rw [hd.FIDT, setEntry_FIDT]
      simp
    · simpa using StreamPc.fcb_eq (hd.place u)
    · refine h.placed.entries hl hp (fun q hq => ?_) hd.place hd.lock hd.pstate hd.threads
      rw [hd.FIDT]
      funext i
      simp [setEntry_FIDT, hq]

/-- An entry that was empty denotes an FCB in use. -/
theorem Inv.addEntry (h : s.Inv R) (hl : s.lock = none) {p f : Nat} {fid : Int}
    (hp : s.pstate p = .alive) (hf : R f ≠ []) (hnone : s.FIDT p fid = none)
    (hrange : 0 ≤ fid ∧ fid < MAX_FILEID) :
    { s with toFileTables := (s.increfFCB f).setEntry p fid (some f) }.Inv
      (Function.update R f (R f ++ [Ref.entry p fid])) where
  files := by
    refine h.files.addRef (r := .entry p fid) hf (fun q i => ?_) (fun u => by simp)
      (fun g hm => ?_) (fun q i he => ?_) (s.increfFCB_refcount f) rfl
    · rw [setEntry_FIDT]
      simp
    · have := (h.files.entries g p fid).mp hm
      simp [hnone] at this
    · obtain ⟨-, rfl⟩ := Ref.entry.inj he
      exact hrange
  opened := by
    refine h.opened.congr (fun g => ?_) (s.increfFCB_stream f) rfl rfl rfl
    have happ : R f ++ [Ref.entry p fid] ≠ [] := List.concat_ne_nil _ _
    by_cases hg : g = f
    · subst hg
      simpa using hf
    · simp [hg]
  placed := by
    refine h.placed.entries hl hp (fun q hq => ?_) (fun _ => rfl) rfl rfl rfl
    funext i
    simp [setEntry_FIDT, hq]

theorem Inv.sysDup2 (h : s.Inv R) (hl : s.lock = none) {p : Nat} (hp : s.pstate p = .alive)
    {oldfd newfd : Int} (hs : s.sysDup2 p oldfd newfd = some s') : ∃ R', s'.Inv R' := by
  unfold Streams.sysDup2 at hs
  split at hs
  · cases hs
    exact ⟨R, h⟩
  rename_i hrange
  have hrange : 0 ≤ newfd ∧ newfd < MAX_FILEID := by omega
  split at hs
  · cases hs
    exact ⟨R, h⟩
  rename_i f hf
  have hRf : R f ≠ [] := List.ne_nil_of_mem ((h.files.entries f p oldfd).mpr (getFCB_eq hf))
  simp only at hs
  split at hs
  · cases hs
    exact ⟨R, h⟩
  rename_i hne
  obtain ⟨s₁, hs₁, rfl⟩ := Option.map_eq_some_iff.mp hs
  cases hg : s.getFCB p newfd with
  | none =>
    rw [hg] at hs₁
    obtain rfl := Option.some.inj hs₁
    have hnone : s.FIDT p newfd = none := by
      rwa [getFCB, if_neg (by omega)] at hg
    exact ⟨_, h.addEntry hl hp hRf hnone hrange⟩
  | some g =>
    rw [hg] at hs₁ hne
    have hd : Decref s s₁ g := decref_of hs₁
    have hentry := getFCB_eq hg
    have hgf : f ≠ g := fun he => hne (by rw [he])
    -- As if the entry had been cleared before it is set again.
    have hclear : { s₁ with toFileTables := s₁.setEntry p newfd none }.Inv
        (Function.update R g ((R g).erase (.entry p newfd))) := by
      refine h.drop ((h.files.entries g p newfd).mpr hentry) (fun q i => ?_) (fun u => ?_)
        hd.refcount hd.freelist hd.stream hd.opens hd.opening hd.closes ?_
      · rw [setEntry_FIDT, hd.FIDT]
        simp
      · simpa using StreamPc.fcb_eq (hd.place u)
      · refine h.placed.entries hl hp (fun q hq => ?_) hd.place hd.lock hd.pstate hd.threads
        funext i
        simp [setEntry_FIDT, hd.FIDT, hq]
    have hadd := hclear.addEntry (f := f) (p := p) (hd.lock.trans hl)
      (by rw [hd.pstate, hp]) (by rwa [Function.update_of_ne hgf]) (by simp [setEntry_FIDT]) hrange
    simp only [setEntry_increfFCB_setEntry] at hadd
    exact ⟨_, hadd⟩

/-! ## Processes and threads -/

theorem Inv.spawnThread (h : s.Inv R) (hl : s.lock = none) (p : Nat) :
    (s.spawnThread p).Inv R := by
  have hnew : s.pc s.threads = .unborn := h.placed.born _ (Nat.le_refl _)
  have hpc : ∀ u, (s.spawnThread p).pc u = if u = s.threads then .running else s.pc u := by
    intro u
    simp only [Streams.spawnThread, Function.update_apply]
  refine ⟨?_, h.opened.congr (fun _ => Iff.rfl) (fun _ => rfl) rfl rfl rfl, ?_⟩
  · have hcalls : (fun u => ((s.spawnThread p).pc u).fcb) = fun u => (s.pc u).fcb := by
      funext u
      rw [hpc]
      split
      · rename_i hu
        rw [hu, hnew]
        rfl
      · rfl
    rw [hcalls]
    exact h.files
  · have hexiting := h.placed.exiting
    have hreturning := h.placed.returning
    have hborn := h.placed.born
    refine ⟨h.placed.alive, fun u i hu => ?_, fun u f hu => ?_, fun u hu => ?_⟩
    · rw [hpc] at hu
      have := (hexiting u i (by grind)).1
      simp [hl] at this
    · rw [hpc] at hu
      exact hreturning u f (by grind)
    · have hu : s.threads + 1 ≤ u := hu
      rw [hpc, if_neg (by omega)]
      exact hborn u (by omega)

theorem Inv.sysExec (h : s.Inv R) (hl : s.lock = none) {p q : Nat} (hq : s.pstate q = .free)
    (call : Bool) : ∃ R', (s.sysExec p q call).Inv R' := by
  have hnone : ∀ i, s.FIDT q i = none := h.placed.alive q (by simp [hq])
  obtain ⟨R', hfiles, hused, -, hstream, hFIDT⟩ :=
    h.files.inherit (p := p) fids fids_nodup fun i _ => hnone i
  have hi : ({ s with
      pstate := Function.update s.pstate q .alive
      toFileTables := s.inherit p q fids } : Streams).Inv R' := by
    refine ⟨hfiles, h.opened.congr (fun f => by simp [hused]) hstream rfl rfl rfl, ?_⟩
    refine ⟨fun q' hq' i => ?_, fun u i hu => ?_, h.placed.returning, h.placed.born⟩
    · have hne : q' ≠ q := fun he => hq' (by simp [he])
      simp only [Function.update_of_ne hne] at hq'
      simp only [hFIDT q' hne]
      exact h.placed.alive q' hq' i
    · have := (h.placed.exiting u i hu).1
      simp [hl] at this
  unfold Streams.sysExec
  simp only
  split
  · exact ⟨R', hi.spawnThread hl q⟩
  · exact ⟨R', hi⟩

/-- `Exit` begins. -/
theorem Inv.exit (h : s.Inv R) (hl : s.lock = none) {u : Nat} (hu : s.pc u = .running)
    (hp : s.pstate (s.owner u) = .alive) :
    { s.goto u (.exiting 0) with lock := some u }.Inv R := by
  have hpc : ∀ v, (s.goto u (.exiting 0)).pc v = if v = u then .exiting 0 else s.pc v := by
    intro v
    simp only [goto, Function.update_apply]
  refine ⟨?_, h.opened.congr (fun _ => Iff.rfl) (fun _ => rfl) rfl rfl rfl, h.placed.alive,
    fun v i hv => ?_, fun v f hv => ?_, fun v hv => ?_⟩
  · have hcalls : (fun v => ((s.goto u (.exiting 0)).pc v).fcb) = fun v => (s.pc v).fcb := by
      funext v
      rw [hpc]
      split
      · rename_i hv
        rw [hv, hu]
        rfl
      · rfl
    simp only [hcalls]
    exact h.files
  · simp only [hpc] at hv
    split at hv
    · rename_i hvu
      obtain rfl := StreamPc.exiting.inj hv
      subst hvu
      refine ⟨rfl, hp, fun j hj => ?_⟩
      by_contra hne
      have := (h.files.range _ j hne).1
      omega
    · have := (h.placed.exiting v i hv).1
      simp [hl] at this
  · simp only [hpc] at hv
    have := h.placed.returning v f (by grind)
    simp [hl] at this
  · simp only [hpc]
    have hb := h.placed.born v hv
    have hne : v ≠ u := fun he => by simp [he, hu] at hb
    rw [if_neg hne, hb]

/-- One entry of the process that exits is cleared. -/
theorem Inv.exitEntry (h : s.Inv R) {u : Nat} {i : Int} (hl : s.lock = some u)
    (hu : s.pc u = .exiting i) (hs : s.exitEntry (s.owner u) i = some s₁) :
    ∃ R', (s₁.goto u (.exiting (i + 1))).Inv R' := by
  obtain ⟨-, hp, hbefore⟩ := h.placed.exiting u i hu
  obtain ⟨s₂, hs₂, rfl⟩ := Option.map_eq_some_iff.mp hs
  -- What is left of the entry, once its reference is dropped.
  have hplaced : ∀ s' : Streams,
      (∀ q j, s'.FIDT q j = if q = s.owner u ∧ j = i then none else s.FIDT q j) →
      (∀ v, (s'.pc v).place = if v = u then .exiting (i + 1) else (s.pc v).place) →
      s'.lock = s.lock → s'.pstate = s.pstate → s'.owner = s.owner → s'.threads = s.threads →
      s'.Placed := by
    intro s' hFIDT hpc hlock hpstate howner hthreads
    have hother : ∀ v, v ≠ u → (s'.pc v).place = (s.pc v).place := fun v hv => by
      rw [hpc, if_neg hv]
    constructor <;> simp only [hlock, hpstate, howner, hthreads]
    case alive =>
      intro q hq j
      have := h.placed.alive q hq j
      rw [hFIDT]
      split
      · rfl
      · exact this
    case exiting =>
      intro v j hv
      by_cases hvu : v = u
      · subst hvu
        have hj := hpc v
        rw [if_pos rfl, hv] at hj
        obtain rfl := StreamPc.exiting.inj hj
        refine ⟨hl, hp, fun k hk => ?_⟩
        rw [hFIDT]
        split
        · rfl
        · rename_i hne
          exact hbefore k (by grind)
      · have := (h.placed.exiting v j
          ((place_iff (hother v hvu) (.inr (.inr ⟨j, rfl⟩))).mp hv)).1
        rw [hl] at this
        exact absurd (Option.some.inj this).symm hvu
    case returning =>
      intro v f hv
      have hvu : v ≠ u := fun he => by
        have := hpc v
        rw [if_pos he, hv] at this
        simp [StreamPc.place] at this
      exact h.placed.returning v f ((place_iff (hother v hvu) (.inr (.inl ⟨f, rfl⟩))).mp hv)
    case born =>
      intro v hv
      have hb := h.placed.born v hv
      have hvu : v ≠ u := fun he => by simp [he, hu] at hb
      exact (place_iff (hother v hvu) (.inl rfl)).mpr hb
  have hgoto : ∀ (s' : Streams) (v : Nat), (s'.goto u (.exiting (i + 1))).pc v =
      if v = u then .exiting (i + 1) else s'.pc v := fun s' v => by
    simp only [goto, Function.update_apply]
  have hcall : (s.pc u).fcb = none := by
    rw [hu]
    rfl
  cases hf : s.FIDT (s.owner u) i with
  | none =>
    rw [hf] at hs₂
    obtain rfl := Option.some.inj hs₂
    have hsame : s.setEntry (s.owner u) i none = s.toFileTables := by
      simp only [setEntry, ← hf, Function.update_eq_self]
    refine ⟨R, ?_, ?_, hplaced _ (fun q j => ?_) (fun v => ?_) rfl rfl rfl rfl⟩
    · have hcalls : (fun v => ((s.goto u (.exiting (i + 1))).pc v).fcb) =
          fun v => (s.pc v).fcb := by
        funext v
        rw [hgoto]
        split
        · rename_i hv
          rw [hv, hcall]
          rfl
        · rfl
      have hfiles := h.files
      rw [← hcalls, ← hsame] at hfiles
      exact hfiles
    · exact h.opened.congr (fun _ => Iff.rfl) (fun _ => rfl) rfl rfl rfl
    · exact setEntry_FIDT ..
    · rw [hgoto]
      split <;> rfl
  | some f =>
    rw [hf] at hs₂
    have hd : Decref s s₂ f := decref_of hs₂
    refine ⟨_, h.drop ((h.files.entries f _ i).mpr hf) (fun q j => ?_) (fun v => ?_) hd.refcount
      hd.freelist hd.stream hd.opens hd.opening hd.closes
      (hplaced _ (fun q j => ?_) (fun v => ?_) hd.lock hd.pstate hd.owner hd.threads)⟩
    · simp only [goto, setEntry_FIDT, hd.FIDT, Ref.entry.injEq]
    · simp only [hgoto, reduceCtorEq, if_false]
      split
      · rename_i hv
        rw [hv, hcall]
        rfl
      · exact StreamPc.fcb_eq (hd.place v)
    · simp only [goto, setEntry_FIDT, hd.FIDT]
    · rw [hgoto]
      split
      · rfl
      · exact hd.place v

/-- The thread in the middle of a call comes to its end. -/
theorem Placed.leaves (h : s.Placed) {u : Nat} (hl : s.lock = some u) (hu : s.pc u ≠ .unborn)
    {x : StreamPc} (hx : x = .running ∨ x = .exited)
    (hpc : ∀ v, (s'.pc v).place = if v = u then x else (s.pc v).place)
    (halive : ∀ p, s'.pstate p ≠ .alive → ∀ i, s'.FIDT p i = none)
    (hthreads : s'.threads = s.threads) : s'.Placed := by
  have hself : ∀ y, s'.pc u = y → y.place = x := fun y hy => by
    have := hpc u
    rwa [hy, if_pos rfl] at this
  have hother : ∀ v, v ≠ u → (s'.pc v).place = (s.pc v).place := fun v hv => by
    rw [hpc, if_neg hv]
  refine ⟨halive, fun v i hv => ?_, fun v f hv => ?_, fun v hv => ?_⟩
  · by_cases hvu : v = u
    · have := hself _ (hvu ▸ hv)
      rcases hx with rfl | rfl <;> simp [StreamPc.place] at this
    · have := (h.exiting v i ((place_iff (hother v hvu) (.inr (.inr ⟨i, rfl⟩))).mp hv)).1
      rw [hl] at this
      exact absurd (Option.some.inj this).symm hvu
  · by_cases hvu : v = u
    · have := hself _ (hvu ▸ hv)
      rcases hx with rfl | rfl <;> simp [StreamPc.place] at this
    · have := h.returning v f ((place_iff (hother v hvu) (.inr (.inl ⟨f, rfl⟩))).mp hv)
      rw [hl] at this
      exact absurd (Option.some.inj this).symm hvu
  · have hb := h.born v (hthreads ▸ hv)
    have hvu : v ≠ u := fun he => hu (he ▸ hb)
    exact (place_iff (hother v hvu) (.inl rfl)).mpr hb

theorem Inv.finishExit (h : s.Inv R) {u : Nat} {i : Int} (hl : s.lock = some u)
    (hu : s.pc u = .exiting i) (hi : ¬ i < MAX_FILEID) : (s.finishExit u).Inv R := by
  have hpc : ∀ v, (s.finishExit u).pc v = if v = u then .exited else s.pc v := fun v => by
    simp only [Streams.finishExit, goto, Function.update_apply]
  refine ⟨?_, h.opened.congr (fun _ => Iff.rfl) (fun _ => rfl) rfl rfl rfl, ?_⟩
  · have hcalls : (fun v => ((s.finishExit u).pc v).fcb) = fun v => (s.pc v).fcb := by
      funext v
      rw [hpc]
      split
      · rename_i hv
        rw [hv, hu]
        rfl
      · rfl
    rw [hcalls]
    exact h.files
  · refine h.placed.leaves hl (by simp [hu]) (.inr rfl) (fun v => ?_) (fun p hp j => ?_) rfl
    · rw [hpc]
      split <;> rfl
    · -- The process that exits has no entry left.
      by_cases hpu : p = s.owner u
      · subst hpu
        by_contra hne
        have hj : j < i := lt_of_lt_of_le (h.files.range _ j hne).2 (not_lt.mp hi)
        exact hne ((h.placed.exiting u i hu).2.2 j hj)
      · refine h.placed.alive p ?_ j
        simpa [Streams.finishExit, hpu] using hp

/-- `Read` or `Write` drops its reference. -/
theorem Inv.returns (h : s.Inv R) {u f : Nat} (hu : s.pc u = .returning f)
    (hs : { s.goto u .running with lock := none }.decrefFCB (s.owner u) f = some s') :
    ∃ R', s'.Inv R' := by
  have hd := decref_of hs
  have hcall : (s.pc u).fcb = some f := by
    rw [hu]
    rfl
  have hpc : ∀ v, (s'.pc v).place = if v = u then .running else (s.pc v).place := fun v => by
    rw [hd.place]
    simp only [goto, Function.update_apply]
    split <;> rfl
  refine ⟨_, h.drop ((h.files.threads f u).mpr hcall) (fun p i => ?_) (fun v => ?_) hd.refcount
    hd.freelist hd.stream hd.opens hd.opening hd.closes ?_⟩
  · simp only [hd.FIDT, reduceCtorEq, if_false]
    rfl
  · rw [← StreamPc.fcb_place, hpc]
    simp only [Ref.thread.injEq]
    split
    · rfl
    · exact StreamPc.fcb_place
  · refine h.placed.leaves (h.placed.returning u f hu) (by simp [hu]) (.inl rfl) hpc
      (fun p hp i => ?_) hd.threads
    rw [hd.FIDT]
    exact h.placed.alive p (by rwa [hd.pstate] at hp) i

/-! ## Reading, writing, connecting -/

theorem Quiet.goes (hq : Quiet s s') (u : Nat) {x : StreamPc} (hx : x ≠ .unborn)
    (hexiting : ∀ i, x ≠ .exiting i) (hreturning : ∀ f, x ≠ .returning f) :
    Goes s (s'.goto u x) u where
  files := hq.files
  place v hv := by
    rw [← hq.place v]
    simp only [goto, Function.update_of_ne hv]
  born := by simpa [goto] using hx
  exiting := by simpa [goto] using hexiting
  lock := by simpa [goto] using .inr ⟨hq.lock, hreturning⟩
  pstate := hq.pstate
  owner := hq.owner
  threads := hq.threads
  opens := hq.opens
  opening := hq.opening
  closes := hq.closes

theorem Quiet.returnFrom (hq : Quiet s s') (u f : Nat) : Goes s (s'.returnFrom u f) u where
  files := hq.files
  place v hv := by
    rw [← hq.place v]
    simp only [Streams.returnFrom, goto, Function.update_of_ne hv]
  born := by simp [Streams.returnFrom, goto]
  exiting := by simp [Streams.returnFrom, goto]
  lock := .inl rfl
  pstate := hq.pstate
  owner := hq.owner
  threads := hq.threads
  opens := hq.opens
  opening := hq.opening
  closes := hq.closes

@[simp] theorem goto_pc (s : Streams) (u : Nat) (x : StreamPc) : (s.goto u x).pc u = x := by
  simp [goto]

@[simp] theorem returnFrom_pc (s : Streams) (u f : Nat) :
    (s.returnFrom u f).pc u = .returning f := by
  simp [Streams.returnFrom]

theorem goes_pipeReadStretch (hq : Quiet s s') (u f q size : Nat) :
    Goes s (s'.pipeReadStretch u f q size) u ∧
      ((s'.pipeReadStretch u f q size).pc u).fcb = some f := by
  unfold pipeReadStretch
  split
  · exact ⟨hq.goes u (by simp) (by simp) (by simp), by simp [StreamPc.fcb]⟩
  · refine ⟨Quiet.returnFrom (hq.trans ?_) u f, by simp [StreamPc.fcb]⟩
    exact (quiet_setPipe s' q _).trans (.ite (quiet_broadcastHasSpace _ q))

theorem goes_endWrite (hq : Quiet s s') (u f q : Nat) (buf : List Byte) (size : Nat)
    (w : WriteStretch) : Goes s (s'.endWrite u f q buf size w) u ∧
      ((s'.endWrite u f q buf size w).pc u).fcb = some f := by
  unfold endWrite
  split
  · exact ⟨hq.goes u (by simp) (by simp) (by simp), by simp [StreamPc.fcb]⟩
  · refine ⟨Quiet.returnFrom (hq.trans ?_) u f, by simp [StreamPc.fcb]⟩
    exact (quiet_setPipe s' q _).trans (.ite (quiet_broadcastHasData _ q))

theorem goes_serialReadStretch (s : Streams) (u f size : Nat) (data : Bool) :
    Goes s (s.serialReadStretch u f size data) u ∧
      ((s.serialReadStretch u f size data).pc u).fcb = some f := by
  unfold serialReadStretch
  split
  · exact ⟨(Quiet.refl s).returnFrom u f, by simp [StreamPc.fcb]⟩
  · exact ⟨(Quiet.refl s).goes u (by simp) (by simp) (by simp), by simp [StreamPc.fcb]⟩

/-- `Read` does nothing, or takes a reference and goes on. -/
theorem sysRead_cases {u : Nat} {fd : Int} {size : Nat} {data : Bool}
    (hs : s.sysRead u fd size data = some s') :
    s' = s ∨ ∃ f, s.getFCB (s.owner u) fd = some f ∧
      Goes { s with toFileTables := s.increfFCB f } s' u ∧ (s'.pc u).fcb = some f := by
  unfold Streams.sysRead at hs
  split at hs
  · cases hs
    exact .inl rfl
  rename_i f hf
  refine .inr ⟨f, hf, ?_⟩
  have hreturn : ∀ s', Quiet { s with toFileTables := s.increfFCB f } s' →
      Goes { s with toFileTables := s.increfFCB f } (s'.returnFrom u f) u ∧
        ((s'.returnFrom u f).pc u).fcb = some f := fun s' hq =>
    ⟨hq.returnFrom u f, by simp [StreamPc.fcb]⟩
  simp only at hs
  split at hs
  · exact absurd hs (by simp)
  · cases hs
    exact hreturn _ (.refl _)
  · cases hs
    exact hreturn _ (.refl _)
  · cases hs
    exact hreturn _ (quiet_infoRead _ f size)
  · cases hs
    exact goes_serialReadStretch ..
  · cases hs
    exact goes_pipeReadStretch (.refl _) ..
  · rename_i k _
    split at hs
    · cases hs
      exact goes_pipeReadStretch (quiet_access _ k) ..
    · cases hs
      exact hreturn _ (quiet_access _ k)

theorem sysWrite_cases {u : Nat} {fd : Int} {buf : List Byte} {size : Nat}
    (hs : s.sysWrite u fd buf size = some s') :
    s' = s ∨ ∃ f, s.getFCB (s.owner u) fd = some f ∧
      Goes { s with toFileTables := s.increfFCB f } s' u ∧ (s'.pc u).fcb = some f := by
  unfold Streams.sysWrite at hs
  split at hs
  · cases hs
    exact .inl rfl
  rename_i f hf
  refine .inr ⟨f, hf, ?_⟩
  have hreturn : ∀ s', Quiet { s with toFileTables := s.increfFCB f } s' →
      Goes { s with toFileTables := s.increfFCB f } (s'.returnFrom u f) u ∧
        ((s'.returnFrom u f).pc u).fcb = some f := fun s' hq =>
    ⟨hq.returnFrom u f, by simp [StreamPc.fcb]⟩
  simp only at hs
  split at hs
  · exact absurd hs (by simp)
  · cases hs
    exact hreturn _ (.refl _)
  · cases hs
    exact hreturn _ (.refl _)
  · cases hs
    exact hreturn _ (.refl _)
  · cases hs
    exact hreturn _ (.refl _)
  · cases hs
    exact goes_endWrite (.refl _) ..
  · rename_i k _
    split at hs
    · cases hs
      exact goes_endWrite (quiet_access _ k) ..
    · cases hs
      exact hreturn _ (quiet_access _ k)

theorem Inv.sysRead (h : s.Inv R) (hl : s.lock = none) {u : Nat} (hu : s.pc u = .running)
    {fd : Int} {size : Nat} {data : Bool} (hs : s.sysRead u fd size data = some s') :
    ∃ R', s'.Inv R' := by
  rcases sysRead_cases hs with rfl | ⟨f, hf, hg, hcall⟩
  · exact ⟨R, h⟩
  · have hRf : R f ≠ [] := List.ne_nil_of_mem ((h.files.entries f _ fd).mpr (getFCB_eq hf))
    exact h.begins hRf hu hl hg hcall

theorem Inv.sysWrite (h : s.Inv R) (hl : s.lock = none) {u : Nat} (hu : s.pc u = .running)
    {fd : Int} {buf : List Byte} {size : Nat} (hs : s.sysWrite u fd buf size = some s') :
    ∃ R', s'.Inv R' := by
  rcases sysWrite_cases hs with rfl | ⟨f, hf, hg, hcall⟩
  · exact ⟨R, h⟩
  · have hRf : R f ≠ [] := List.ne_nil_of_mem ((h.files.entries f _ fd).mpr (getFCB_eq hf))
    exact h.begins hRf hu hl hg hcall

theorem Inv.acceptRequest (h : s.Inv R) (hl : s.lock = none) {p l : Nat}
    (hp : s.pstate p = .alive) {m : Mallocs} (hm : m.scb = true)
    (hs : s.acceptRequest p l m = some s') : ∃ R', s'.Inv R' := by
  unfold Streams.acceptRequest at hs
  split at hs
  case h_2 => exact absurd hs (by simp)
  rename_i r rs _
  simp only at hs
  have hq := quiet_popRequest s l r rs
  obtain ⟨R', h₂⟩ := (h.quiet hq).sysSocket (hq.lock.trans hl) (p := p) (by rw [hq.pstate, hp])
    ((s.popRequest l r rs).scb l).port
  rw [hm] at hs
  split at hs
  · rename_i s₂ hsock
    cases hs
    rw [hsock] at h₂
    exact ⟨R', h₂.quiet (quiet_signalConn s₂ r)⟩
  · rename_i fid s₂ hsock
    rw [hsock] at h₂
    split at hs
    · cases hs
      exact ⟨R', h₂.quiet (quiet_connectPeers ..)⟩
    · exact absurd hs (by simp)

/-- `Accept` fails, goes to sleep, or goes on at once. -/
theorem sysAccept_goes {u : Nat} {lsock : Int} {m : Mallocs}
    (hs : s.sysAccept u lsock m = some s') :
    Quiet s s' ∨ (Goes s s' u ∧ (s'.pc u).fcb = none) ∨
      ∃ l, (s.access l).acceptRequest (s.owner u) l m = some s' := by
  unfold Streams.sysAccept at hs
  simp only at hs
  split at hs
  case h_2 =>
    cases hs
    exact .inl (.refl s)
  rename_i l _
  have hq := quiet_access s l
  split at hs
  · cases hs
    exact .inl hq
  split at hs
  · cases hs
    have hg := hq.goes u (x := .accepting l false) (by simp) (by simp) (by simp)
    refine .inr (.inl ⟨⟨hg.files, hg.place, hg.born, hg.exiting, hg.lock, hg.pstate, hg.owner,
      hg.threads, hg.opens, hg.opening, hg.closes⟩, ?_⟩)
    show (((s.access l).goto u (.accepting l false)).pc u).fcb = none
    rw [goto_pc]
    rfl
  · exact .inr (.inr ⟨l, hs⟩)

/-- An `Accept` that was woken fails, or goes on. -/
theorem resumeAccept_goes {u l : Nat} {m : Mallocs} (hs : s.resumeAccept u l m = some s') :
    ∃ s₁, (Goes s s₁ u ∧ (s₁.pc u).fcb = none) ∧
      (s' = s₁ ∨ s₁.acceptRequest (s.owner u) l m = some s') := by
  have hq := quiet_access s l
  refine ⟨(s.access l).goto u .running,
    ⟨hq.goes u (by simp) (by simp) (by simp), by rw [goto_pc]; rfl⟩, ?_⟩
  unfold Streams.resumeAccept at hs
  simp only at hs
  split at hs
  · cases hs
    exact .inl rfl
  · have howner : ((s.access l).goto u .running).owner u = s.owner u := congrFun hq.owner u
    rw [howner] at hs
    exact .inr hs

/-- `Connect` fails, or goes to sleep. -/
theorem sysConnect_goes {u : Nat} {sock port : Int} {malloc : Bool}
    (hs : s.sysConnect u sock port malloc = some s') :
    Quiet s s' ∨ Goes s s' u ∧ (s'.pc u).fcb = none := by
  unfold Streams.sysConnect at hs
  split at hs
  · cases hs
    exact .inl (.refl s)
  split at hs
  · cases hs
    exact .inl (.refl s)
  rename_i l _
  have hq := quiet_access s l
  simp only at hs
  split at hs
  · cases hs
    exact .inl hq
  split at hs
  · cases hs
    exact .inl hq
  split at hs
  · exact absurd hs (by simp)
  · exact absurd hs (by simp)
  case h_7 k _ =>
    have hq₂ := hq.trans (quiet_access _ k)
    split at hs
    · cases hs
      exact .inl hq₂
    · cases hs
      refine .inr ⟨Quiet.goes ?_ u (by simp) (by simp) (by simp), by rw [goto_pc]; rfl⟩
      refine hq₂.trans (Quiet.trans ?_ (quiet_signalReqs _ l))
      exact .of_pc (fun _ => rfl) rfl
  -- Another kind of stream.
  all_goals
    cases hs
    exact .inl (hq.trans (quiet_connectOther ..))

theorem resumeConnect_goes (s : Streams) (u r : Nat) (w : TimedWait) :
    Goes s (s.resumeConnect u r w) u ∧ ((s.resumeConnect u r w).pc u).fcb = none := by
  have hg := (Quiet.refl s).goes u (x := .running) (by simp) (by simp) (by simp)
  have hcall : ((s.goto u .running).pc u).fcb = none := by
    rw [goto_pc]
    rfl
  unfold Streams.resumeConnect
  simp only
  split <;> exact ⟨⟨hg.files, hg.place, hg.born, hg.exiting, hg.lock, hg.pstate, hg.owner,
    hg.threads, hg.opens, hg.opening, hg.closes⟩, hcall⟩

theorem Inv.sysAccept (h : s.Inv R) (hl : s.lock = none) {u : Nat} (hu : s.pc u = .running)
    (hp : s.pstate (s.owner u) = .alive) {lsock : Int} {m : Mallocs} (hm : m.scb = true)
    (hs : s.sysAccept u lsock m = some s') : ∃ R', s'.Inv R' := by
  rcases sysAccept_goes hs with hq | ⟨hg, hcall⟩ | ⟨l, hs⟩
  · exact ⟨R, h.quiet hq⟩
  · exact ⟨R, h.goes hg (by simp [hu]) hl (by rw [hcall, hu]; rfl)⟩
  · have hq := quiet_access s l
    exact (h.quiet hq).acceptRequest (hq.lock.trans hl) (by rw [hq.pstate, hp]) hm hs

theorem Inv.resumeAccept (h : s.Inv R) (hl : s.lock = none) {u l : Nat}
    (hu : s.pc u = .accepting l true) (hp : s.pstate (s.owner u) = .alive) {m : Mallocs}
    (hm : m.scb = true) (hs : s.resumeAccept u l m = some s') : ∃ R', s'.Inv R' := by
  unfold Streams.resumeAccept at hs
  have hq := quiet_access s l
  have h₁ : ((s.access l).goto u .running).Inv R := by
    refine h.goes (hq.goes u (by simp) (by simp) (by simp)) (by simp [hu]) hl ?_
    simp [hu, StreamPc.fcb]
  simp only at hs
  split at hs
  · cases hs
    exact ⟨R, h₁⟩
  · refine h₁.acceptRequest (hq.lock.trans hl) ?_ hm hs
    change (s.access l).pstate ((s.access l).owner u) = .alive
    rw [hq.pstate, hq.owner, hp]

theorem Inv.sysConnect (h : s.Inv R) (hl : s.lock = none) {u : Nat} (hu : s.pc u = .running)
    {sock port : Int} {malloc : Bool} (hs : s.sysConnect u sock port malloc = some s') :
    s'.Inv R := by
  rcases sysConnect_goes hs with hq | ⟨hg, hcall⟩
  · exact h.quiet hq
  · exact h.goes hg (by simp [hu]) hl (by rw [hcall, hu]; rfl)

theorem Inv.resumeConnect (h : s.Inv R) (hl : s.lock = none) {u r : Nat} {w : TimedWait}
    (hu : s.pc u = .connecting r w) (w' : TimedWait) : (s.resumeConnect u r w').Inv R := by
  obtain ⟨hg, hcall⟩ := resumeConnect_goes s u r w'
  exact h.goes hg (by simp [hu]) hl (by rw [hcall, hu]; rfl)

/-! ## The system -/

/-- System calls are issued by processes that are alive. -/
def Alive (s : Streams) (a : StreamAction) : Prop :=
  match caller a with
  | none => True
  | some u => s.pstate (s.owner u) = .alive

/-- And no `malloc` fails in a `Socket`, in the `Socket` inside `Accept`, or in an `OpenInfo`. An
`Accept` that slept goes on in a process that is alive. -/
def Sound (s : Streams) (a : StreamAction) : Prop :=
  s.Alive a ∧
  match a with
  | .socket _ _ malloc => malloc = true
  | .openInfo _ info table _ => info = true ∧ table = true
  | .accept _ _ m => m.scb = true
  | .resume u _ m =>
    match s.pc u with
    | .accepting _ _ => m.scb = true ∧ s.pstate (s.owner u) = .alive
    | _ => True
  | _ => True

instance (s : Streams) (a : StreamAction) : Decidable (s.Alive a) := by
  unfold Alive
  split <;> infer_instance

instance (s : Streams) (a : StreamAction) : Decidable (s.Sound a) := by
  unfold Sound Alive
  cases a <;> simp only [caller] <;> try infer_instance
  rename_i u data m
  cases s.pc u <;> simp only <;> infer_instance

theorem Inv.call (h : s.Inv R) (hl : s.lock = none) {u : Nat} (hu : s.pc u = .running)
    {a : StreamAction} (ha : caller a = some u) (hc : s.Sound a) (hs : s.call u a = some s') :
    ∃ R', s'.Inv R' := by
  obtain ⟨hp, hmalloc⟩ := hc
  rw [Alive, ha] at hp
  cases a with
  | openNull v =>
    cases hs
    exact h.openStream hl hp _
  | openTerminal v termno =>
    cases hs
    exact h.openStream hl hp _
  | pipe v malloc => exact h.sysPipe hl hp hs
  | socket v port malloc =>
    cases hs
    obtain rfl : malloc = true := hmalloc
    exact h.sysSocket hl hp port
  | openInfo v info table copied =>
    obtain ⟨r, hr, rfl⟩ := Option.map_eq_some_iff.mp hs
    obtain ⟨rfl, rfl⟩ : info = true ∧ table = true := hmalloc
    rcases sysOpenInfo_cases hr with ⟨index, he⟩ | ⟨hm, -⟩
    · rw [he]
      have hq : Quiet s { s with infoIndex := index } := .of_pc (fun _ => rfl) rfl
      exact (h.quiet hq).openStream hl hp _
    · simp at hm
  | listen v sock =>
    cases hs
    exact ⟨R, h.quiet (quiet_sysListen ..)⟩
  | accept v lsock m => exact h.sysAccept hl hu hp hmalloc hs
  | connect v sock port malloc => exact ⟨R, h.sysConnect hl hu hs⟩
  | shutDown v sock how =>
    cases hs
    exact ⟨R, h.quiet (quiet_sysShutDown ..)⟩
  | read v fd size data => exact h.sysRead hl hu hs
  | write v fd buf size => exact h.sysWrite hl hu hs
  | close v fd => exact h.sysClose hl hp hs
  | dup2 v oldfd newfd => exact h.sysDup2 hl hp hs
  | exec v q call =>
    obtain ⟨hq, hs⟩ := Option.ite_none_right_eq_some.mp hs
    cases hs
    exact h.sysExec hl hq call
  | createThread v =>
    cases hs
    exact ⟨R, h.spawnThread hl _⟩
  | exit v =>
    cases hs
    exact ⟨R, h.exit hl hu hp⟩
  | reap | resume | proceed | rxReady | timeout => exact absurd ha (by simp [caller])

theorem Inv.resume (h : s.Inv R) (hl : s.lock = none) {u : Nat} {data : Bool} {m : Mallocs}
    (hc : s.Sound (.resume u data m)) (hs : s.resume u data m = some s') : ∃ R', s'.Inv R' := by
  have hgoes : ∀ {f : Nat} {s' : Streams}, (s.pc u).fcb = some f →
      Goes s s' u ∧ (s'.pc u).fcb = some f → s'.Inv R := fun hf hg =>
    h.goes hg.1 (fun hb => by simp [hb, StreamPc.fcb] at hf) hl (hg.2.trans hf.symm)
  unfold Streams.resume at hs
  split at hs
  · rename_i f q size hu
    cases hs
    exact ⟨R, hgoes (by rw [hu]; rfl) (goes_pipeReadStretch (.refl s) ..)⟩
  · rename_i f q buf size hu
    cases hs
    exact ⟨R, hgoes (by rw [hu]; rfl) (goes_endWrite (.refl s) ..)⟩
  · rename_i f size hu
    cases hs
    exact ⟨R, hgoes (by rw [hu]; rfl) (goes_serialReadStretch ..)⟩
  · rename_i l hu
    obtain ⟨-, hc⟩ := hc
    simp only [hu] at hc
    exact h.resumeAccept hl hu hc.2 hc.1 hs
  · rename_i r hu
    cases hs
    exact ⟨R, h.resumeConnect hl hu _⟩
  · rename_i r hu
    cases hs
    exact ⟨R, h.resumeConnect hl hu _⟩
  · exact absurd hs (by simp)

theorem Inv.proceed (h : s.Inv R) {u : Nat} (hl : s.lock = some u)
    (hs : s.proceed u = some s') : ∃ R', s'.Inv R' := by
  unfold Streams.proceed at hs
  split at hs
  · rename_i f hu
    exact h.returns hu hs
  · rename_i i hu
    split at hs
    · obtain ⟨s₁, hs₁, rfl⟩ := Option.map_eq_some_iff.mp hs
      exact h.exitEntry hl hu hs₁
    · rename_i hi
      cases hs
      exact ⟨R, h.finishExit hl hu hi⟩
  · exact absurd hs (by simp)

/-- The PCB of a zombie is released. -/
theorem Inv.reap (h : s.Inv R) {p : Nat} (hp : s.pstate p = .zombie) :
    { s with pstate := Function.update s.pstate p .free }.Inv R := by
  refine ⟨h.files, h.opened.congr (fun _ => Iff.rfl) (fun _ => rfl) rfl rfl rfl, ?_⟩
  have hne : ∀ q, s.pstate q = .alive → q ≠ p := by
    rintro q hq rfl
    simp [hp] at hq
  refine ⟨fun q hq => h.placed.alive q fun halive => ?_, fun u i hu => ?_, h.placed.returning,
    h.placed.born⟩
  · simp [Function.update_of_ne (hne q halive), halive] at hq
  · obtain ⟨hl, halive, hnone⟩ := h.placed.exiting u i hu
    have hup := hne (s.owner u) halive
    exact ⟨hl, by simpa [Function.update_of_ne hup] using halive, hnone⟩

theorem inductive_inv : streamSys.InductiveIf (fun s a => s.Sound a) fun s => ∃ R, s.Inv R where
  init := by
    rintro s ⟨serialPorts, rfl⟩
    exact ⟨_, inv_initial serialPorts⟩
  step := by
    rintro s a s' ⟨R, h⟩ hc hs
    rcases perform_cases hs with ⟨p, rfl, hp, rfl⟩ | ⟨u, data, m, rfl, hl, hs⟩ |
      ⟨u, rfl, hl, hs⟩ | ⟨rfl, rfl⟩ | ⟨u, r, rfl, hu, rfl⟩ | ⟨u, ha, hl, hu, hs⟩
    · exact ⟨R, h.reap hp⟩
    · exact h.resume hl hc hs
    · exact h.proceed hl hs
    · exact ⟨R, h.quiet (.of_pc (fun _ => StreamPc.place_wakeSerial) rfl)⟩
    · refine ⟨R, h.quiet (.of_pc (fun v => ?_) rfl)⟩
      by_cases hv : v = u
      · rw [hv, goto_pc, hu]
        rfl
      · simp [goto, hv]
    · exact h.call hl hu ha hc hs

end Streams

end TinyOS
