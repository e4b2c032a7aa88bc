import TinyOS.Lib.Lists
import TinyOS.Stream.Files

/-!
# The process tree in memory

The process table once more, with its lists as they are in memory: a PCB has four `rlnode`s, the
heads of its children and exited lists and the nodes by which it is on the lists of its parent, and
all of them are linked in place. `sys_Exec`, the body of `sys_Exit` and `cleanup_zombie` are taken
one at a time here, from any state that satisfies the invariant; threads are left out.

`FCB_incref` and `FCB_decref` do not touch a PCB, nor do the methods of the streams they close.
-/

set_option autoImplicit false

namespace TinyOS

/-- The nodes of PCB `p`. -/
inductive TreeNode where
  | childrenList (p : Nat)
  | exitedList (p : Nat)
  | childrenNode (p : Nat)
  | exitedNode (p : Nat)
  deriving DecidableEq

/-- The key `initialize_PCB` gives the node. -/
def TreeNode.pcb : TreeNode → Option Nat
  | .childrenList _ => none
  | .exitedList _ => none
  | .childrenNode p => some p
  | .exitedNode p => some p

structure Tree where
  links : Links TreeNode
  pstate : Nat → PidState
  /-- The parent's PCB; on the free list, the next one. -/
  parent : Nat → Option Nat
  FIDT : Nat → Int → Option Nat
  pcbFreelist : Option Nat

namespace Tree

/-! ## The operations -/

/-- `initialize_processes`, with its loops over the table, before its `Exec`. -/
def initializeProcesses (maxProc : Nat) : Tree :=
  (List.range maxProc).foldr
    (fun p t =>
      { t with parent := Function.update t.parent p t.pcbFreelist, pcbFreelist := some p })
    { links := { next := id, prev := id }, pstate := fun _ => .free, parent := fun _ => none
      FIDT := fun _ _ => none, pcbFreelist := none }

/-- `acquire_PCB`. -/
def acquirePCB (t : Tree) : Option (Nat × Tree) :=
  match t.pcbFreelist with
  | none => none
  | some p => some (p, { t with
    pstate := Function.update t.pstate p .alive
    pcbFreelist := t.parent p })

/-- `release_PCB`. -/
def releasePCB (t : Tree) (p : Nat) : Tree :=
  { t with
    pstate := Function.update t.pstate p .free
    parent := Function.update t.parent p t.pcbFreelist
    pcbFreelist := some p }

/-- `sys_Exec`, called by the process `cur`; `none` is `NOPROC`. -/
def sysExec (t : Tree) (cur : Nat) : Option Nat × Tree :=
  match t.acquirePCB with
  | none => (none, t)
  | some (p, t) =>
    if p ≤ 1 then (some p, { t with parent := Function.update t.parent p none })
    else (some p, { t with
      parent := Function.update t.parent p (some cur)
      links := t.links.pushFront (.childrenList cur) (.childrenNode p)
      FIDT := Function.update t.FIDT p fun i =>
        if 0 ≤ i ∧ i < MAX_FILEID then t.FIDT cur i else t.FIDT p i })

/-- `cleanup_zombie`. -/
def cleanupZombie (t : Tree) (c : Nat) : Tree :=
  releasePCB { t with
    links := (t.links.remove (.childrenNode c)).remove (.exitedNode c) } c

/-- The loop of `sys_Exit` over the file table. -/
def clearFIDT (t : Tree) (cur : Nat) : Tree :=
  { t with FIDT := Function.update t.FIDT cur fun i =>
      if 0 ≤ i ∧ i < MAX_FILEID then none else t.FIDT cur i }

/-- The loop over the children, given enough fuel. A node without a PCB is a crash. -/
def reparent (cur : Nat) : Nat → Tree → Option Tree
  | 0, _ => none
  | fuel + 1, t =>
    let child := t.links.next (.childrenList cur)
    if child = .childrenList cur then some t
    else do
      let c ← child.pcb
      reparent cur fuel { t with
        links := (t.links.popFront (.childrenList cur)).pushFront (.childrenList 1) child
        parent := Function.update t.parent c (some 1) }

/-- The exited children go to the exited list of the initial task. -/
def appendExited (t : Tree) (cur : Nat) : Tree :=
  if t.links.next (.exitedList cur) = .exitedList cur then t
  else { t with links := t.links.append (.exitedList 1) (.exitedList cur) }

/-- And the process to the one of its parent. -/
def pushExited (t : Tree) (cur : Nat) : Tree :=
  match t.parent cur with
  | none => t
  | some p => { t with links := t.links.pushFront (.exitedList p) (.exitedNode cur) }

/-- The body of `sys_Exit`, after the wait of the initial task. -/
def sysExit (t : Tree) (fuel cur : Nat) : Option Tree := do
  let t ← (t.clearFIDT cur).reparent cur fuel
  let t := (t.appendExited cur).pushExited cur
  some { t with pstate := Function.update t.pstate cur .zombie }

/-! ## The invariant -/

/-- What the children list of `p` holds, in order. -/
def Children (t : Tree) (p : Nat) (l : List Nat) : Prop :=
  IsRing t.links.next (.childrenList p :: l.map .childrenNode)

def Exited (t : Tree) (p : Nat) (l : List Nat) : Prop :=
  IsRing t.links.next (.exitedList p :: l.map .exitedNode)

def IsHead : TreeNode → Prop
  | .childrenList _ => True
  | .exitedList _ => True
  | .childrenNode _ => False
  | .exitedNode _ => False

/-- The nodes on each list. -/
def content (children exited : Nat → List Nat) : TreeNode → List TreeNode
  | .childrenList p => (children p).map .childrenNode
  | .exitedList p => (exited p).map .exitedNode
  | .childrenNode _ => []
  | .exitedNode _ => []

/-- The chain of parents of `p` ends at pid 1, and meets only ALIVE processes. -/
inductive Rooted (t : Tree) : Nat → Prop where
  | init : t.pstate 1 = .alive → Rooted t 1
  | child {p q : Nat} : t.parent p = some q → t.pstate q = .alive → Rooted t q → Rooted t p

/-- **The tree invariant**, for given lists. -/
structure Shape (t : Tree) (children exited : Nat → List Nat) (free : List Nat) : Prop where
  lists : IsLists t.links IsHead (content children exited)
  /-- No list but the parent's holds a PCB, and pids 0 and 1 are on none. -/
  mem_children : ∀ p c, c ∈ children p ↔ 2 ≤ c ∧ t.pstate c ≠ .free ∧ t.parent c = some p
  mem_exited : ∀ p c, c ∈ exited p ↔ t.pstate c = .zombie ∧ t.parent c = some p
  parentless : ∀ p ≤ 1, t.pstate p ≠ .free → t.parent p = none
  rooted : ∀ p, 2 ≤ p → t.pstate p ≠ .free → Rooted t p
  children_nil : ∀ p, t.pstate p ≠ .alive → children p = []
  exited_nil : ∀ p, t.pstate p ≠ .alive → exited p = []
  files_null : ∀ p, t.pstate p ≠ .alive → ∀ i : Int, 0 ≤ i → i < MAX_FILEID → t.FIDT p i = none
  /-- The free list is chained through the parents of FREE PCBs. -/
  chain : Chain.IsChain t.parent t.pcbFreelist free
  free : ∀ p ∈ free, t.pstate p = .free

def Inv (t : Tree) : Prop :=
  ∃ children exited free, t.Shape children exited free

/-! ## The list operations, on the lists -/

section Lists

variable {children exited : Nat → List Nat} {h : Links TreeNode}

theorem content_children (p : Nat) (l : List Nat) :
    Function.update (content children exited) (.childrenList p) (l.map .childrenNode) =
      content (Function.update children p l) exited := by
  funext n
  cases n with
  | childrenList q =>
    by_cases hq : q = p
    · subst hq
      simp [content]
    · simp [content, hq]
  | exitedList q => simp [content]
  | childrenNode q => simp [content]
  | exitedNode q => simp [content]

theorem content_exited (p : Nat) (l : List Nat) :
    Function.update (content children exited) (.exitedList p) (l.map .exitedNode) =
      content children (Function.update exited p l) := by
  funext n
  cases n with
  | childrenList q => simp [content]
  | exitedList q =>
    by_cases hq : q = p
    · subst hq
      simp [content]
    · simp [content, hq]
  | childrenNode q => simp [content]
  | exitedNode q => simp [content]

theorem pushFront_children (hl : IsLists h IsHead (content children exited)) {p c : Nat}
    (hc : ∀ q, c ∉ children q) :
    IsLists (h.pushFront (.childrenList p) (.childrenNode c)) IsHead
      (content (Function.update children p (c :: children p)) exited) := by
  have hnew : ∀ a, IsHead a → TreeNode.childrenNode c ∉ content children exited a := by
    intro a _
    cases a with
    | childrenList q => simpa [content] using hc q
    | exitedList q => simp [content]
    | childrenNode q => simp [content]
    | exitedNode q => simp [content]
  have hpush := hl.pushFront (a := TreeNode.childrenList p) (b := TreeNode.childrenNode c)
    trivial id hnew
  rwa [← content_children]

theorem pushFront_exited (hl : IsLists h IsHead (content children exited)) {p c : Nat}
    (hc : ∀ q, c ∉ exited q) :
    IsLists (h.pushFront (.exitedList p) (.exitedNode c)) IsHead
      (content children (Function.update exited p (c :: exited p))) := by
  have hnew : ∀ a, IsHead a → TreeNode.exitedNode c ∉ content children exited a := by
    intro a _
    cases a with
    | childrenList q => simp [content]
    | exitedList q => simpa [content] using hc q
    | childrenNode q => simp [content]
    | exitedNode q => simp [content]
  have hpush := hl.pushFront (a := TreeNode.exitedList p) (b := TreeNode.exitedNode c)
    trivial id hnew
  rwa [← content_exited]

theorem remove_children (hl : IsLists h IsHead (content children exited)) {p c : Nat}
    (hc : c ∈ children p) :
    IsLists (h.remove (.childrenNode c)) IsHead
      (content (Function.update children p ((children p).erase c)) exited) := by
  have hmem : TreeNode.childrenNode c ∈ content children exited (.childrenList p) :=
    List.mem_map_of_mem hc
  have hrem := hl.remove (a := TreeNode.childrenList p) trivial hmem
  rwa [← content_children, List.map_erase (fun _ _ => TreeNode.childrenNode.inj)]

theorem remove_exited (hl : IsLists h IsHead (content children exited)) {p c : Nat}
    (hc : c ∈ exited p) :
    IsLists (h.remove (.exitedNode c)) IsHead
      (content children (Function.update exited p ((exited p).erase c))) := by
  have hmem : TreeNode.exitedNode c ∈ content children exited (.exitedList p) :=
    List.mem_map_of_mem hc
  have hrem := hl.remove (a := TreeNode.exitedList p) trivial hmem
  rwa [← content_exited, List.map_erase (fun _ _ => TreeNode.exitedNode.inj)]

theorem popFront_children (hl : IsLists h IsHead (content children exited)) {p c : Nat}
    {l : List Nat} (hc : children p = c :: l) :
    h.next (.childrenList p) = .childrenNode c ∧
      IsLists (h.popFront (.childrenList p)) IsHead
        (content (Function.update children p l) exited) := by
  have hcontent : content children exited (.childrenList p) =
      .childrenNode c :: l.map .childrenNode := by
    simp [content, hc]
  have hpop := hl.popFront (a := TreeNode.childrenList p) trivial hcontent
  rwa [← content_children]

theorem append_exited (hl : IsLists h IsHead (content children exited)) {p q : Nat}
    (hpq : p ≠ q) :
    IsLists (h.append (.exitedList p) (.exitedList q)) IsHead
      (content children
        (Function.update (Function.update exited p (exited p ++ exited q)) q [])) := by
  have happ := hl.append (a := TreeNode.exitedList p) (b := TreeNode.exitedList q)
    trivial trivial (by simpa)
  rwa [← content_exited, ← content_exited, List.map_append]

theorem children_nodup (hl : IsLists h IsHead (content children exited)) (p : Nat) :
    (children p).Nodup :=
  List.Nodup.of_map _ (List.nodup_cons.mp (hl.ring (.childrenList p) trivial).1).2

theorem exited_nodup (hl : IsLists h IsHead (content children exited)) (p : Nat) :
    (exited p).Nodup :=
  List.Nodup.of_map _ (List.nodup_cons.mp (hl.ring (.exitedList p) trivial).1).2

theorem children_one (hl : IsLists h IsHead (content children exited)) {p q c : Nat}
    (hp : c ∈ children p) (hq : c ∈ children q) : p = q :=
  TreeNode.childrenList.inj (hl.one (.childrenList p) (.childrenList q) trivial trivial
    (.childrenNode c) (List.mem_map_of_mem hp) (List.mem_map_of_mem hq))

end Lists

/-! ## The chain of parents -/

variable {t t' : Tree} {p : Nat}

theorem Rooted.init_alive (h : Rooted t p) : t.pstate 1 = .alive := by
  induction h with
  | init h1 => exact h1
  | child _ _ _ ih => exact ih

/-- The parent is ALIVE. -/
theorem Rooted.parent_alive (h : Rooted t p) (hp : 2 ≤ p) {q : Nat} (hq : t.parent p = some q) :
    t.pstate q = .alive := by
  cases h with
  | init h1 => omega
  | child hparent halive _ =>
    rw [hparent] at hq
    rwa [← Option.some.inj hq]

/-- Nobody is its own parent, if the initial task is not. -/
theorem Rooted.parent_ne (h : Rooted t p) (h1 : t.pstate 1 ≠ .free → t.parent 1 = none) :
    t.parent p ≠ some p := by
  induction h with
  | init halive => simp [h1 (by simp [halive])]
  | child hparent _ _ ih =>
    intro he
    obtain rfl := Option.some.inj (hparent.symm.trans he)
    exact ih hparent

/-- A PCB that is not ALIVE is on no other one's chain. -/
theorem Rooted.congr {x : Nat} (h : Rooted t p) (hx : t.pstate x ≠ .alive)
    (hparent : ∀ q, q ≠ x → t'.parent q = t.parent q)
    (hstate : ∀ q, q ≠ x → t'.pstate q = t.pstate q) (hp : p ≠ x) : Rooted t' p := by
  induction h with
  | init h1 => exact .init (by rwa [hstate 1 hp])
  | @child p q hq halive _ ih =>
    have hqx : q ≠ x := by
      rintro rfl
      exact hx halive
    exact .child (by rwa [hparent p hp]) (by rwa [hstate q hqx]) (ih hqx)

section Shape

variable {children exited : Nat → List Nat} {free : List Nat}

/-- PCBs that are not ALIVE have no children, because children have an ALIVE parent. -/
theorem Shape.of_rooted (hlists : IsLists t.links IsHead (content children exited))
    (hchildren : ∀ p c, c ∈ children p ↔ 2 ≤ c ∧ t.pstate c ≠ .free ∧ t.parent c = some p)
    (hexited : ∀ p c, c ∈ exited p ↔ t.pstate c = .zombie ∧ t.parent c = some p)
    (hparentless : ∀ p ≤ 1, t.pstate p ≠ .free → t.parent p = none)
    (hrooted : ∀ p, 2 ≤ p → t.pstate p ≠ .free → Rooted t p)
    (hfiles : ∀ p, t.pstate p ≠ .alive → ∀ i : Int, 0 ≤ i → i < MAX_FILEID → t.FIDT p i = none)
    (hchain : Chain.IsChain t.parent t.pcbFreelist free)
    (hfree : ∀ p ∈ free, t.pstate p = .free) : t.Shape children exited free where
  lists := hlists
  mem_children := hchildren
  mem_exited := hexited
  parentless := hparentless
  rooted := hrooted
  children_nil p hp := by
    refine List.eq_nil_iff_forall_not_mem.mpr fun c hc => hp ?_
    obtain ⟨h2, hcf, hparent⟩ := (hchildren p c).mp hc
    exact (hrooted c h2 hcf).parent_alive h2 hparent
  exited_nil p hp := by
    refine List.eq_nil_iff_forall_not_mem.mpr fun c hc => hp ?_
    obtain ⟨hz, hparent⟩ := (hexited p c).mp hc
    have hcf : t.pstate c ≠ .free := by simp [hz]
    have h2 : 2 ≤ c := by
      by_contra hlt
      simp [hparentless c (by omega) hcf] at hparent
    exact (hrooted c h2 hcf).parent_alive h2 hparent
  files_null := hfiles
  chain := hchain
  free := hfree

namespace Shape

variable {cur c : Nat}

theorem rooted_of_alive (h : t.Shape children exited free) (hc : t.pstate c = .alive)
    (h0 : c ≠ 0) : Rooted t c := by
  by_cases h1 : c = 1
  · subst h1
    exact .init hc
  · exact h.rooted c (by omega) (by simp [hc])

/-! ## `sys_Exec` -/

theorem sysExec (h : t.Shape children exited free)
    (hcur : ∀ p, t.pcbFreelist = some p → 2 ≤ p → t.pstate cur = .alive ∧ cur ≠ 0) :
    (t.sysExec cur).2.Inv := by
  cases hhead : t.pcbFreelist with
  | none =>
    rw [Tree.sysExec, acquirePCB, hhead]
    exact ⟨_, _, _, h⟩
  | some p =>
    have hchain := h.chain
    rw [hhead] at hchain
    obtain ⟨free, rfl, htail⟩ := hchain.pop
    have hp : t.pstate p = .free := h.free p List.mem_cons_self
    have hpfree : p ∉ free := (List.nodup_cons.mp hchain.nodup).1
    have hpa : t.pstate p ≠ .alive := by simp [hp]
    have hfree : ∀ q ∈ free, Function.update t.pstate p .alive q = .free := fun q hq => by
      rw [Function.update_of_ne (ne_of_mem_of_not_mem hq hpfree)]
      exact h.free q (List.mem_cons_of_mem p hq)
    simp only [Tree.sysExec, acquirePCB, hhead]
    split
    · rename_i hle
      refine ⟨children, exited, free, Shape.of_rooted h.lists ?_ ?_ ?_ ?_ ?_
        (htail.update hpfree none) hfree⟩
      · intro q c
        by_cases hcp : c = p
        · subst hcp
          simp [h.mem_children, hp]
        · simp [h.mem_children, hcp]
      · intro q c
        by_cases hcp : c = p
        · subst hcp
          simp [h.mem_exited, hp]
        · simp [h.mem_exited, hcp]
      · intro q hq hqf
        by_cases hqp : q = p
        · simp [hqp]
        · simp only [Function.update_of_ne hqp] at hqf ⊢
          exact h.parentless q hq hqf
      · intro q hq hqf
        have hqp : q ≠ p := by omega
        refine (h.rooted q hq (by simpa [hqp] using hqf)).congr hpa ?_ ?_ hqp <;>
          exact fun r hr => Function.update_of_ne hr _ _
      · intro q hq
        have hqp : q ≠ p := by
          rintro rfl
          simp at hq
        exact h.files_null q (by simpa [hqp] using hq)
    · rename_i hle
      obtain ⟨hcur, hcur0⟩ := hcur p hhead (by omega)
      have hcp : cur ≠ p := by
        rintro rfl
        exact hpa hcur
      have hout : ∀ q, p ∉ children q := fun q hm => ((h.mem_children q p).mp hm).2.1 hp
      refine ⟨_, exited, free, Shape.of_rooted (pushFront_children h.lists hout) ?_ ?_ ?_ ?_ ?_
        (htail.update hpfree (some cur)) hfree⟩
      · intro q c
        by_cases hqc : q = cur
        · subst hqc
          by_cases hcp : c = p
          · subst hcp
            simp
            omega
          · simp [h.mem_children, hcp]
        · by_cases hcp : c = p
          · subst hcp
            simp [hqc, hout, Ne.symm hqc]
          · simp [h.mem_children, hcp, hqc]
      · intro q c
        by_cases hcp : c = p
        · subst hcp
          simp [h.mem_exited, hp]
        · simp [h.mem_exited, hcp]
      · intro q hq hqf
        have hqp : q ≠ p := by omega
        simp only [Function.update_of_ne hqp] at hqf ⊢
        exact h.parentless q hq hqf
      · -- The chain of the new process goes on with the one of its parent.
        have hcongr : ∀ q, Rooted t q → q ≠ p → Rooted { t with
            links := t.links.pushFront (.childrenList cur) (.childrenNode p)
            pstate := Function.update t.pstate p .alive
            parent := Function.update t.parent p (some cur)
            FIDT := Function.update t.FIDT p fun i =>
              if 0 ≤ i ∧ i < MAX_FILEID then t.FIDT cur i else t.FIDT p i
            pcbFreelist := t.parent p } q := fun q hq hqp =>
          hq.congr hpa (fun r hr => Function.update_of_ne hr _ _)
            (fun r hr => Function.update_of_ne hr _ _) hqp
        intro q hq hqf
        by_cases hqp : q = p
        · subst hqp
          refine .child (q := cur) (by simp) (by simpa [hcp] using hcur) ?_
          exact hcongr cur (h.rooted_of_alive hcur hcur0) hcp
        · exact hcongr q (h.rooted q hq (by simpa [hqp] using hqf)) hqp
      · intro q hq
        have hqp : q ≠ p := by
          rintro rfl
          simp at hq
        intro i hi hi'
        simp only [Function.update_of_ne hqp] at hq ⊢
        exact h.files_null q hq i hi hi'

/-! ## `cleanup_zombie` -/

theorem cleanupZombie (h : t.Shape children exited free) (hz : t.pstate c = .zombie) {q : Nat}
    (hq : t.parent c = some q) : (t.cleanupZombie c).Inv := by
  have hcf : t.pstate c ≠ .free := by simp [hz]
  have hca : t.pstate c ≠ .alive := by simp [hz]
  have h2 : 2 ≤ c := by
    by_contra hlt
    simp [h.parentless c (by omega) hcf] at hq
  have hcq : c ∈ children q := (h.mem_children q c).mpr ⟨h2, hcf, hq⟩
  have heq : c ∈ exited q := (h.mem_exited q c).mpr ⟨hz, hq⟩
  have hlists := remove_exited (remove_children h.lists hcq) heq
  have hnd := children_nodup h.lists q
  have hne := exited_nodup h.lists q
  have hcfree : c ∉ free := fun hm => hcf (h.free c hm)
  refine ⟨_, _, c :: free, Shape.of_rooted hlists ?_ ?_ ?_ ?_ ?_ (h.chain.push hcfree) ?_⟩
  · intro p x
    by_cases hx : x = c
    · subst hx
      by_cases hp : p = q
      · subst hp
        simp [Tree.cleanupZombie, releasePCB, hnd.mem_erase_iff]
      · have : x ∉ children p := fun hm => hp (children_one h.lists hm hcq)
        simp [Tree.cleanupZombie, releasePCB, hp, this]
    · by_cases hp : p = q
      · subst hp
        simp [Tree.cleanupZombie, releasePCB, hnd.mem_erase_iff, hx, h.mem_children]
      · simp [Tree.cleanupZombie, releasePCB, hp, hx, h.mem_children]
  · intro p x
    by_cases hx : x = c
    · subst hx
      by_cases hp : p = q
      · subst hp
        simp [Tree.cleanupZombie, releasePCB, hne.mem_erase_iff]
      · have : x ∉ exited p := by
          intro hm
          have := ((h.mem_exited p x).mp hm).2
          exact hp (Option.some.inj (this.symm.trans hq))
        simp [Tree.cleanupZombie, releasePCB, hp, this]
    · by_cases hp : p = q
      · subst hp
        simp [Tree.cleanupZombie, releasePCB, hne.mem_erase_iff, hx, h.mem_exited]
      · simp [Tree.cleanupZombie, releasePCB, hp, hx, h.mem_exited]
  · intro p hp hpf
    have hpc : p ≠ c := by omega
    simp only [Tree.cleanupZombie, releasePCB, Function.update_of_ne hpc] at hpf ⊢
    exact h.parentless p hp hpf
  · intro p hp hpf
    have hpc : p ≠ c := by
      rintro rfl
      simp [Tree.cleanupZombie, releasePCB] at hpf
    refine (h.rooted p hp ?_).congr hca ?_ ?_ hpc
    · simpa [Tree.cleanupZombie, releasePCB, hpc] using hpf
    · exact fun r hr => Function.update_of_ne hr _ _
    · exact fun r hr => Function.update_of_ne hr _ _
  · intro p hp
    by_cases hpc : p = c
    · subst hpc
      exact h.files_null p hca
    · exact h.files_null p (by simpa [Tree.cleanupZombie, releasePCB, hpc] using hp)
  · intro p hp
    by_cases hpc : p = c
    · simp [Tree.cleanupZombie, releasePCB, hpc]
    · have hm : p ∈ free := (List.mem_cons.mp hp).resolve_left hpc
      simpa [Tree.cleanupZombie, releasePCB, hpc] using h.free p hm

end Shape

/-! ## `sys_Exit` -/

/-- The loop ends, and the children have moved. -/
theorem reparent_run {cur : Nat} : ∀ (cs : List Nat) (t : Tree) (children : Nat → List Nat),
    IsLists t.links IsHead (content children exited) → children cur = cs →
    (cs ≠ [] → cur ≠ 1) →
    ∃ h, IsLists h IsHead (content
        (Function.update (Function.update children cur []) 1 (cs.reverse ++ children 1)) exited) ∧
      ∀ fuel, cs.length < fuel → t.reparent cur fuel =
        some { t with links := h, parent := fun c => if c ∈ cs then some 1 else t.parent c } := by
  intro cs
  induction cs with
  | nil =>
    intro t children hl hcur _
    have hsame : Function.update (Function.update children cur []) 1 (children 1) = children := by
      rw [← hcur, Function.update_eq_self, Function.update_eq_self]
    have hnext : t.links.next (.childrenList cur) = .childrenList cur :=
      (hl.empty_iff (a := TreeNode.childrenList cur) trivial).mpr (by simp [content, hcur])
    refine ⟨t.links, by simpa [hsame] using hl, ?_⟩
    intro fuel hfuel
    obtain ⟨fuel, rfl⟩ : ∃ n, fuel = n + 1 := ⟨fuel - 1, by simp at hfuel; omega⟩
    simp [reparent, hnext]
  | cons c cs ih =>
    intro t children hl hcur h1
    have hc1 : cur ≠ 1 := h1 (List.cons_ne_nil c cs)
    obtain ⟨hnext, hpop⟩ := popFront_children hl hcur
    have hccs : c ∉ cs := by
      have hnd := children_nodup hl cur
      rw [hcur] at hnd
      exact (List.nodup_cons.mp hnd).1
    have hout : ∀ q, c ∉ Function.update children cur cs q := by
      intro q hm
      by_cases hq : q = cur
      · subst hq
        exact hccs (by simpa using hm)
      · rw [Function.update_of_ne hq] at hm
        exact hq (children_one hl hm (by simp [hcur]))
    obtain ⟨h, hlists, hrun⟩ := ih
      { t with
        links := (t.links.popFront (.childrenList cur)).pushFront
          (.childrenList 1) (.childrenNode c)
        parent := Function.update t.parent c (some 1) } _
      (pushFront_children (p := 1) hpop hout) (by simp [hc1]) (fun _ => hc1)
    refine ⟨h, ?_, ?_⟩
    · convert hlists using 2
      funext q
      by_cases hq : q = 1
      · subst hq
        simp [Ne.symm hc1]
      · by_cases hqc : q = cur
        · subst hqc
          simp [hq]
        · simp [hq, hqc]
    · intro fuel hfuel
      obtain ⟨fuel, rfl⟩ : ∃ n, fuel = n + 1 := ⟨fuel - 1, by simp at hfuel; omega⟩
      have hlen : cs.length < fuel := by simpa using hfuel
      rw [reparent, hnext]
      simp only [TreeNode.pcb, reduceCtorEq, if_false, Option.bind_eq_bind, Option.bind_some]
      rw [hrun fuel hlen]
      congr 2
      funext x
      by_cases hx : x = c
      · simp [hx]
      · simp [hx]

theorem appendExited_run {cur : Nat} (hl : IsLists t.links IsHead (content children exited))
    (h1 : exited cur ≠ [] → cur ≠ 1) :
    ∃ h, t.appendExited cur = { t with links := h } ∧ IsLists h IsHead (content children
      (Function.update (Function.update exited 1 (exited 1 ++ exited cur)) cur [])) := by
  have hempty : t.links.next (.exitedList cur) = .exitedList cur ↔ exited cur = [] := by
    rw [hl.empty_iff (a := TreeNode.exitedList cur) trivial]
    simp [content]
  rw [appendExited]
  split
  · rename_i hnext
    have hnil := hempty.mp hnext
    refine ⟨t.links, rfl, ?_⟩
    have hsame : Function.update exited cur [] = exited := by
      rw [← hnil, Function.update_eq_self]
    rwa [hnil, List.append_nil, Function.update_eq_self, hsame]
  · rename_i hnext
    have hc1 : cur ≠ 1 := h1 fun hnil => hnext (hempty.mpr hnil)
    exact ⟨_, rfl, append_exited hl (Ne.symm hc1)⟩

/-- The exited lists with `cur` on its parent's, if it has one. -/
def withExited (exited : Nat → List Nat) (cur : Nat) : Option Nat → Nat → List Nat
  | none => exited
  | some p => Function.update exited p (cur :: exited p)

theorem pushExited_run {cur : Nat} (hl : IsLists t.links IsHead (content children exited))
    (hout : ∀ q, cur ∉ exited q) :
    ∃ h, t.pushExited cur = { t with links := h } ∧
      IsLists h IsHead (content children (withExited exited cur (t.parent cur))) := by
  rw [pushExited]
  cases t.parent cur with
  | none => exact ⟨t.links, rfl, hl⟩
  | some p => exact ⟨_, rfl, pushFront_exited hl hout⟩

/-- The lists after the exit of `cur`. -/
def exitChildren (children : Nat → List Nat) (cur : Nat) : Nat → List Nat :=
  Function.update (Function.update children cur []) 1 ((children cur).reverse ++ children 1)

def exitExited (exited : Nat → List Nat) (cur : Nat) (parent : Option Nat) : Nat → List Nat :=
  withExited (Function.update (Function.update exited 1 (exited 1 ++ exited cur)) cur []) cur parent

theorem mem_exitExited {cur p c : Nat} {parent : Option Nat} :
    c ∈ exitExited exited cur parent p ↔ c = cur ∧ parent = some p ∨
      p ≠ cur ∧ (c ∈ exited p ∨ p = 1 ∧ c ∈ exited cur) := by
  have happ : c ∈ Function.update (Function.update exited 1 (exited 1 ++ exited cur)) cur [] p ↔
      p ≠ cur ∧ (c ∈ exited p ∨ p = 1 ∧ c ∈ exited cur) := by
    by_cases hp : p = cur
    · simp [hp]
    · by_cases hp1 : p = 1
      · subst hp1
        simp [hp]
      · simp [hp, hp1]
  rw [exitExited]
  cases parent with
  | none => simpa [withExited] using happ
  | some q =>
    by_cases hq : p = q
    · subst hq
      simp [withExited, happ]
    · simp [withExited, happ, hq, Ne.symm hq]

/-- The exited list of the initial task, which is empty if it is itself the one that exits. -/
theorem exitExited_init {cur : Nat} {parent : Option Nat} (h1 : cur = 1 → exited cur = []) :
    exitExited exited cur parent 1 =
      (if parent = some 1 then [cur] else []) ++ (exited 1 ++ exited cur) := by
  have happ : Function.update (Function.update exited 1 (exited 1 ++ exited cur)) cur [] 1 =
      exited 1 ++ exited cur := by
    by_cases hc : cur = 1
    · subst hc
      simp [h1 rfl]
    · simp [Ne.symm hc]
  rw [exitExited]
  cases parent with
  | none => simpa [withExited] using happ
  | some q =>
    by_cases hq : q = 1
    · subst hq
      simp [withExited, happ]
    · simp [withExited, happ, hq, Ne.symm hq]

/-- And the rest of the tree. -/
def exitTree (t : Tree) (children : Nat → List Nat) (cur : Nat) (h : Links TreeNode) : Tree :=
  { t.clearFIDT cur with
    links := h
    pstate := Function.update t.pstate cur .zombie
    parent := fun c => if c ∈ children cur then some 1 else t.parent c }

namespace Shape

variable {cur : Nat}

theorem not_mem_own (h : t.Shape children exited free) (hcur : t.pstate cur = .alive)
    (h0 : cur ≠ 0) : cur ∉ children cur := fun hm =>
  (h.rooted_of_alive hcur h0).parent_ne (h.parentless 1 (Nat.le_refl 1))
    ((h.mem_children cur cur).mp hm).2.2

theorem exited_sub (h : t.Shape children exited free) {p c : Nat} (hc : c ∈ exited p) :
    c ∈ children p := by
  obtain ⟨hz, hparent⟩ := (h.mem_exited p c).mp hc
  have hcf : t.pstate c ≠ .free := by simp [hz]
  refine (h.mem_children p c).mpr ⟨?_, hcf, hparent⟩
  by_contra hlt
  simp [h.parentless c (by omega) hcf] at hparent

theorem sysExit_run (h : t.Shape children exited free) (hcur : t.pstate cur = .alive)
    (h0 : cur ≠ 0) (h1 : cur = 1 → children 1 = []) :
    ∃ l, IsLists l IsHead (content (exitChildren children cur)
        (exitExited exited cur (t.parent cur))) ∧
      ∀ fuel, (children cur).length < fuel →
        t.sysExit fuel cur = some (t.exitTree children cur l) := by
  have hc1 : children cur ≠ [] → cur ≠ 1 := by
    rintro hne rfl
    exact hne (h1 rfl)
  have he1 : exited cur ≠ [] → cur ≠ 1 := by
    intro hne
    obtain ⟨c, hc⟩ := List.exists_mem_of_ne_nil _ hne
    exact hc1 (List.ne_nil_of_mem (h.exited_sub hc))
  obtain ⟨l, hl, hrun⟩ := reparent_run (children cur) (t.clearFIDT cur) children h.lists rfl hc1
  obtain ⟨l', happ, hl'⟩ := appendExited_run (t := { t.clearFIDT cur with
    links := l
    parent := fun c => if c ∈ children cur then some 1 else t.parent c }) hl he1
  have hout : ∀ q, cur ∉
      Function.update (Function.update exited 1 (exited 1 ++ exited cur)) cur [] q := by
    have hnot : ∀ q, cur ∉ exited q := fun q hm => by
      simpa [hcur] using ((h.mem_exited q cur).mp hm).1
    intro q
    simp only [Function.update_apply]
    split <;> [skip; split] <;> simp [hnot]
  obtain ⟨l'', hpush, hl''⟩ := pushExited_run (t := { t.clearFIDT cur with
    links := l'
    parent := fun c => if c ∈ children cur then some 1 else t.parent c }) hl' hout
  simp only [if_neg (h.not_mem_own hcur h0)] at hl''
  refine ⟨l'', hl'', ?_⟩
  intro fuel hfuel
  rw [Tree.sysExit, hrun fuel hfuel]
  change some _ = some _
  have hlinks : { t.clearFIDT cur with
      links := l
      parent := fun c => if c ∈ children cur then some 1 else (t.clearFIDT cur).parent c } =
      { t.clearFIDT cur with
        links := l
        parent := fun c => if c ∈ children cur then some 1 else t.parent c } := rfl
  rw [hlinks, happ, hpush]
  rfl

/-- The exited process is on nobody's chain: whoever had it as parent has the initial task. -/
theorem rooted_exit (h : t.Shape children exited free) (hcur : t.pstate cur = .alive)
    (h1 : cur = 1 → children 1 = []) {l : Links TreeNode} {p : Nat} (hr : Rooted t p)
    (hp : 2 ≤ p) (hpf : t.pstate p ≠ .free) : Rooted (t.exitTree children cur l) p := by
  have hstate : ∀ q, q ≠ cur → (t.exitTree children cur l).pstate q = t.pstate q := fun q hq =>
    Function.update_of_ne hq _ _
  have hinit : 1 ≠ cur → Rooted (t.exitTree children cur l) 1 := fun hne =>
    .init (by rw [hstate 1 hne]; exact hr.init_alive)
  induction hr with
  | init _ => omega
  | @child p q hparent halive hq ih =>
    by_cases hqc : q = cur
    · subst hqc
      have hm : p ∈ children q := (h.mem_children q p).mpr ⟨hp, hpf, hparent⟩
      have hq1 : 1 ≠ q := by
        rintro rfl
        simp [h1 rfl] at hm
      refine .child (q := 1) (by simp [exitTree, hm]) ?_ (hinit hq1)
      rw [hstate 1 hq1]
      exact hq.init_alive
    · have hm : p ∉ children cur := fun hm => by
        have := ((h.mem_children cur p).mp hm).2.2
        exact hqc (Option.some.inj (hparent.symm.trans this))
      refine .child (q := q) (by simpa [exitTree, hm] using hparent) (by rwa [hstate q hqc]) ?_
      by_cases hq2 : 2 ≤ q
      · exact ih hq2 (by simp [halive])
      · cases hq with
        | init _ => exact hinit hqc
        | child hqp _ _ => simp [h.parentless q (by omega) (by simp [halive])] at hqp

theorem exit (h : t.Shape children exited free) (hcur : t.pstate cur = .alive) (h0 : cur ≠ 0)
    (h1 : cur = 1 → children 1 = []) {l : Links TreeNode}
    (hl : IsLists l IsHead (content (exitChildren children cur)
      (exitExited exited cur (t.parent cur)))) :
    (t.exitTree children cur l).Shape (exitChildren children cur)
      (exitExited exited cur (t.parent cur)) free := by
  have hown := h.not_mem_own hcur h0
  have hparent : ∀ c, (t.exitTree children cur l).parent c =
      if c ∈ children cur then some 1 else t.parent c := fun _ => rfl
  have hstate : ∀ c, (t.exitTree children cur l).pstate c =
      if c = cur then .zombie else t.pstate c := fun c => by
    simp only [exitTree, Function.update_apply]
  have hfreec : ∀ c, (t.exitTree children cur l).pstate c = .free ↔ t.pstate c = .free := by
    intro c
    rw [hstate]
    split
    · simp [*]
    · rfl
  have hcf : cur ∉ free := fun hm => by simp [h.free cur hm] at hcur
  refine Shape.of_rooted hl ?_ ?_ ?_ ?_ ?_ ?_ ?_
  · intro p c
    rw [Ne, hfreec, hparent]
    have hcm := h.mem_children cur c
    by_cases hp1 : p = 1
    · subst hp1
      have h1m := h.mem_children 1 c
      simp only [exitChildren, Function.update_self, List.mem_append, List.mem_reverse]
      by_cases hc : c ∈ children cur
      · simpa [hc] using hcm.mp hc |>.imp_right And.left
      · simpa [hc] using h1m
    · have hpm := h.mem_children p c
      simp only [exitChildren, Function.update_of_ne hp1]
      by_cases hpc : p = cur
      · subst hpc
        by_cases hc : c ∈ children p
        · simp [hc, Ne.symm hp1]
        · simpa [hc] using hpm
      · rw [Function.update_of_ne hpc]
        by_cases hc : c ∈ children cur
        · have hnot : c ∉ children p := fun hm => hpc (children_one h.lists hm hc)
          simp [hc, hnot, Ne.symm hp1]
        · simpa [hc] using hpm
  · intro p c
    rw [mem_exitExited, hstate, hparent]
    by_cases hc : c = cur
    · subst hc
      have hnot : ∀ q, c ∉ exited q := fun q hm => by
        simpa [hcur] using ((h.mem_exited q c).mp hm).1
      simp [hown, hnot]
    · have hpm := h.mem_exited p c
      have hcm := h.mem_exited cur c
      rw [if_neg hc]
      by_cases hm : c ∈ children cur
      · have hpar := ((h.mem_children cur c).mp hm).2.2
        have hc1 : 1 ≠ cur := by
          rintro rfl
          simp [h1 rfl] at hm
        rw [if_pos hm, hpm, hcm]
        by_cases hp : p = cur
        · subst hp
          simp [hc, hc1]
        · simp [hc, hpar, hp, Ne.symm hp, eq_comm (a := 1), and_comm]
      · have hnot : c ∉ exited cur := fun he => hm (h.exited_sub he)
        rw [if_neg hm]
        by_cases hp : p = cur
        · subst hp
          simpa [hc] using fun hz hpar => hnot (hcm.mpr ⟨hz, hpar⟩)
        · simp [hc, hp, hnot, hpm]
  · intro p hp hpf
    rw [Ne, hfreec] at hpf
    have hm : p ∉ children cur := fun hm => by
      have := ((h.mem_children cur p).mp hm).1
      omega
    rw [hparent, if_neg hm]
    exact h.parentless p hp hpf
  · intro p hp hpf
    rw [Ne, hfreec] at hpf
    exact h.rooted_exit hcur h1 (h.rooted p hp hpf) hp hpf
  · intro p hp i hi hi'
    by_cases hpc : p = cur
    · subst hpc
      simp [exitTree, clearFIDT, hi, hi']
    · rw [hstate, if_neg hpc] at hp
      simpa [exitTree, clearFIDT, hpc] using h.files_null p hp i hi hi'
  · refine h.chain.congr fun c hc => ?_
    rw [hparent, if_neg]
    exact fun hm => ((h.mem_children cur c).mp hm).2.1 (h.free c hc)
  · exact fun c hc => (hfreec c).mpr (h.free c hc)

end Shape

end Shape

/-! ## The start -/

/-- The loop of `initialize_processes`, which runs downwards. -/
theorem initialize_fold (t : Tree) (ht : t.pcbFreelist = none) (l : List Nat) (hl : l.Nodup) :
    ∃ parent head, Chain.IsChain parent head l ∧
      l.foldr (fun p t => { t with
        parent := Function.update t.parent p t.pcbFreelist, pcbFreelist := some p }) t =
      { t with parent := parent, pcbFreelist := head } := by
  induction l with
  | nil => exact ⟨t.parent, t.pcbFreelist, ht, rfl⟩
  | cons p l ih =>
    obtain ⟨hp, hl⟩ := List.nodup_cons.mp hl
    obtain ⟨parent, head, hchain, heq⟩ := ih hl
    refine ⟨_, some p, hchain.push hp, ?_⟩
    rw [List.foldr_cons, heq]

theorem initializeProcesses_inv (maxProc : Nat) : (initializeProcesses maxProc).Inv := by
  obtain ⟨parent, head, hchain, heq⟩ := initialize_fold
    { links := { next := id, prev := id }, pstate := fun _ => .free, parent := fun _ => none
      FIDT := fun _ _ => none, pcbFreelist := none } rfl (List.range maxProc) List.nodup_range
  rw [initializeProcesses, heq]
  refine ⟨fun _ => [], fun _ => [], List.range maxProc, Shape.of_rooted ?_ ?_ ?_ ?_ ?_ ?_ hchain ?_⟩
  · have hnil : ∀ a, content (fun _ => []) (fun _ => []) a = [] := fun a => by cases a <;> rfl
    constructor
    case linked => exact ⟨fun _ => rfl, fun _ => rfl⟩
    case ring =>
      intro a _
      rw [hnil]
      exact IsRing.next_single.mpr rfl
    case element =>
      intro a _ x hx
      simp [hnil] at hx
    case one =>
      intro a b _ _ x hx
      simp [hnil] at hx
    case alone => exact fun x _ _ => rfl
  all_goals simp

/-- The idle process and the initial task have been made. -/
def booted (maxProc : Nat) : Tree :=
  ((initializeProcesses maxProc).sysExec 0).2.sysExec 0 |>.2

theorem booted_inv : (booted 4).Inv := by
  obtain ⟨_, _, _, h⟩ := initializeProcesses_inv 4
  have hidle : ((initializeProcesses 4).sysExec 0).2.Inv := h.sysExec fun p hp h2 => by
    obtain rfl : 0 = p := Option.some.inj hp
    omega
  obtain ⟨_, _, _, h⟩ := hidle
  exact h.sysExec fun p hp h2 => by
    obtain rfl : 1 = p := Option.some.inj hp
    omega

/-! ## The results -/

/-- **The three operations keep the tree invariant.** `sys_Exit` ends, and it moves the children of
`cur`, alive and exited, to the initial task. -/
theorem tree_preserved (t : Tree) (h : t.Inv) :
    (∀ cur, t.pstate cur = .alive → cur ≠ 0 → (t.sysExec cur).2.Inv) ∧
    (∀ cur, t.pstate cur = .alive → cur ≠ 0 → (cur = 1 → t.Children 1 []) →
      ∃ t', (∃ n, ∀ fuel, n ≤ fuel → t.sysExit fuel cur = some t') ∧ t'.Inv ∧
        t'.pstate = Function.update t.pstate cur .zombie ∧
        ∃ cs ds es fs, t.Children cur cs ∧ t.Children 1 ds ∧ t.Exited 1 es ∧ t.Exited cur fs ∧
          t'.Children cur [] ∧ t'.Children 1 (cs.reverse ++ ds) ∧ t'.Exited cur [] ∧
          t'.Exited 1 ((if t.parent cur = some 1 then [cur] else []) ++ (es ++ fs)) ∧
          ∀ c, t'.parent c = if c ∈ cs then some 1 else t.parent c) ∧
    ∀ c p, t.pstate c = .zombie → t.parent c = some p → (t.cleanupZombie c).Inv := by
  obtain ⟨children, exited, free, hs⟩ := h
  refine ⟨fun cur hcur h0 => hs.sysExec fun _ _ _ => ⟨hcur, h0⟩, ?_,
    fun c p hz hp => hs.cleanupZombie hz hp⟩
  intro cur hcur h0 h1
  have hnil : cur = 1 → children 1 = [] := fun he => by
    have hnext := IsRing.next_single.mp (h1 he)
    have hempty := (hs.lists.empty_iff (a := TreeNode.childrenList 1) trivial).mp hnext
    simpa [content] using hempty
  obtain ⟨l, hl, hrun⟩ := hs.sysExit_run hcur h0 hnil
  have hs' := hs.exit hcur h0 hnil hl
  have hchildren : ∀ p, (t.exitTree children cur l).Children p (exitChildren children cur p) :=
    fun p => hs'.lists.ring (.childrenList p) trivial
  have hexited : ∀ p, (t.exitTree children cur l).Exited p
      (exitExited exited cur (t.parent cur) p) :=
    fun p => hs'.lists.ring (.exitedList p) trivial
  have hdead : (t.exitTree children cur l).pstate cur ≠ .alive := by simp [exitTree]
  refine ⟨_, ⟨_, fun fuel hfuel => hrun fuel hfuel⟩, ⟨_, _, _, hs'⟩, rfl,
    children cur, children 1, exited 1, exited cur, hs.lists.ring (.childrenList cur) trivial,
    hs.lists.ring (.childrenList 1) trivial, hs.lists.ring (.exitedList 1) trivial,
    hs.lists.ring (.exitedList cur) trivial, ?_, ?_, ?_, ?_, fun _ => rfl⟩
  · have hr := hchildren cur
    rwa [hs'.children_nil cur hdead] at hr
  · have hr := hchildren 1
    rwa [exitChildren, Function.update_self] at hr
  · have hr := hexited cur
    rwa [hs'.exited_nil cur hdead] at hr
  · have hr := hexited 1
    rwa [exitExited_init] at hr
    intro he
    refine List.eq_nil_iff_forall_not_mem.mpr fun c hc => ?_
    have hm := hs.exited_sub hc
    rw [he, hnil he] at hm
    exact List.not_mem_nil hm

/-- The initial task has the child 2, and that one the child 3. -/
def orphanage : Tree :=
  (((booted 4).sysExec 1).2.sysExec 2).2

/-- Process 2 exits: 3 is adopted, and 2 can be reaped. -/
theorem tree_preserved_orphan : ∃ t', (∃ n, ∀ fuel, n ≤ fuel → orphanage.sysExit fuel 2 = some t') ∧
    t'.parent 3 = some 1 ∧ (t'.cleanupZombie 2).Inv := by
  have h2 := (tree_preserved (booted 4) booted_inv).1 1 rfl (by decide)
  have h3 := (tree_preserved _ h2).1 2 rfl (by decide)
  obtain ⟨t', hrun, hinv, hstate, cs, ds, es, fs, hcs, -, -, -, -, -, -, -, hparent⟩ :=
    (tree_preserved orphanage h3).2.1 2 rfl (by decide) (fun h => absurd h (by decide))
  have hmem : 3 ∈ cs := by
    cases cs with
    | nil => exact absurd (IsRing.next_single.mp hcs) (by decide)
    | cons c cs =>
      have hc : TreeNode.childrenNode 3 = .childrenNode c := hcs.next_head
      rw [← TreeNode.childrenNode.inj hc]
      exact List.mem_cons_self
  have hp2 : t'.parent 2 = some 1 := by
    rw [hparent]
    exact ite_self (some 1)
  refine ⟨t', hrun, by rw [hparent, if_pos hmem], ?_⟩
  exact (tree_preserved t' hinv).2.2 2 1 (by rw [hstate]; rfl) hp2

end Tree

end TinyOS
