import TinyOS.Stream.Allotted
import TinyOS.Stream.Refcount

/-!
# `Connect` and `Accept` agree

A request sits in the queue of its listener whether or not its `Connect` still waits. **The two sides
agree as long as every `Accept` that answers a fid takes a request whose `Connect` is asleep**
(`connects_agree`). It does not look: after the `Connect` has timed out, and even after it has returned
-1, its request is accepted (`not_connects_agree`).

The invariant (`Agreed`) is about requests, threads in `Connect`, and answers. A request has one
thread at most, which has not answered yet; and once the request is accepted, this thread was
signalled, so that it can only answer 0.
-/

set_option autoImplicit false

namespace TinyOS

open Transition

namespace SocketPc

/-- The request for which a thread is in `Connect`, and how its wait goes. -/
def connection : SocketPc → Option (Nat × TimedWait)
  | .connecting r w => some (r, w)
  | _ => none

variable {pc : SocketPc} {r i : Nat} {w : TimedWait}

theorem request_of_connection (h : pc.connection = some (r, w)) : pc.request = some r := by
  cases pc with
  | connecting r' w' =>
    obtain ⟨rfl, -⟩ := Prod.mk.inj (Option.some.inj h)
    rfl
  | _ => simp [connection] at h

theorem connection_wakeAcceptor (k : Nat) : (pc.wakeAcceptor k).connection = pc.connection := by
  cases pc <;> rfl

/-- A thread that is woken was asleep, or stays as it was. -/
theorem of_connection_wakeConnector (h : (pc.wakeConnector r).connection = some (i, w)) :
    ∃ w', pc.connection = some (i, w') ∧ (w = w' ∨ w = .signalled ∧ i = r) ∧
      (i = r → w' = .asleep → w = .signalled) := by
  cases pc with
  | connecting i' w' =>
    cases w' with
    | asleep =>
      simp only [wakeConnector, connection, Option.some.injEq, Prod.mk.injEq] at h
      obtain ⟨rfl, rfl⟩ := h
      refine ⟨.asleep, rfl, ?_, fun hi _ => if_pos hi⟩
      split
      · rename_i hi
        exact .inr ⟨rfl, hi⟩
      · exact .inl rfl
    | signalled | timedOut =>
      obtain ⟨rfl, rfl⟩ := Prod.mk.inj (Option.some.inj h)
      exact ⟨_, rfl, .inl rfl, fun _ ha => absurd ha (by simp)⟩
  | _ => exact absurd h (by simp [wakeConnector, connection])

end SocketPc

namespace Sockets

structure Agreed (n : Sockets) : Prop where
  /-- A request has one `Connect`. -/
  one : ∀ u v r w w', (n.pc u).connection = some (r, w) → (n.pc v).connection = some (r, w') → u = v
  waiting : ∀ u r w, (n.pc u).connection = some (r, w) →
    r < n.reqs ∧ r ∉ n.connected ∧ r ∉ n.refused
  flag : ∀ r, (n.req r).accepted = true ↔ r ∈ n.accepted
  accepted : ∀ r ∈ n.accepted, r < n.reqs ∧ r ∉ n.refused
  signalled : ∀ r ∈ n.accepted, ∀ u w, (n.pc u).connection = some (r, w) → w = .signalled
  connected : ∀ r ∈ n.connected, r ∈ n.accepted
  refused : ∀ r ∈ n.refused, r < n.reqs
  nodup : n.accepted.Nodup

variable {n n' : Sockets} {u r : Nat}

theorem Agreed.keep (h : n.Agreed) (hpc : ∀ u, (n'.pc u).connection = (n.pc u).connection)
    (hreqs : n'.reqs = n.reqs) (hreq : n'.req = n.req) (haccepted : n'.accepted = n.accepted)
    (hconnected : n'.connected = n.connected) (hrefused : n'.refused = n.refused) : n'.Agreed := by
  constructor <;> simp only [hpc, hreqs, hreq, haccepted, hconnected, hrefused]
  case one => exact h.one
  case waiting => exact h.waiting
  case flag => exact h.flag
  case accepted => exact h.accepted
  case signalled => exact h.signalled
  case connected => exact h.connected
  case refused => exact h.refused
  case nodup => exact h.nodup

theorem goto_connection {pc : SocketPc} (hu : (n.pc u).connection = pc.connection) (v : Nat) :
    ((n.goto u pc).pc v).connection = (n.pc v).connection := by
  simp only [goto, Function.update_apply]
  split
  · rename_i hv
    rw [hv, hu]
  · rfl

/-- A thread that is not in `Connect`, before or after. -/
theorem Agreed.goto (h : n.Agreed) {pc : SocketPc} (hu : (n.pc u).connection = none)
    (hpc : pc.connection = none) : (n.goto u pc).Agreed :=
  h.keep (goto_connection (hu.trans hpc.symm)) rfl rfl rfl rfl rfl

theorem Agreed.signalConn (h : n.Agreed) (r : Nat) : (n.signalConn r).Agreed := by
  have hback : ∀ u i w, ((n.signalConn r).pc u).connection = some (i, w) →
      ∃ w', (n.pc u).connection = some (i, w') ∧ (w = w' ∨ w = .signalled) := by
    intro u i w hw
    obtain ⟨w', hw', hor, -⟩ := SocketPc.of_connection_wakeConnector hw
    exact ⟨w', hw', hor.imp_right And.left⟩
  constructor
  case one =>
    intro u v i w w' hu hv
    obtain ⟨w₁, hu, -⟩ := hback u i w hu
    obtain ⟨w₂, hv, -⟩ := hback v i w' hv
    exact h.one u v i w₁ w₂ hu hv
  case waiting =>
    intro u i w hu
    obtain ⟨w', hu, -⟩ := hback u i w hu
    exact h.waiting u i w' hu
  case flag => exact h.flag
  case accepted => exact h.accepted
  case signalled =>
    intro i hi u w hu
    obtain ⟨w', hu, rfl | hw⟩ := hback u i w hu
    · exact h.signalled i hi u _ hu
    · exact hw
  case connected => exact h.connected
  case refused => exact h.refused
  case nodup => exact h.nodup

/-- A request is accepted whose `Connect` is asleep. -/
theorem Agreed.accept (h : n.Agreed) (hu : (n.pc u).connection = some (r, .asleep)) {k j : Nat}
    (hkj : k ≠ j) (m : Mallocs) : (n.connectPeers k j r m).Agreed := by
  obtain ⟨hlt, hconnected, hrefused⟩ := h.waiting u r .asleep hu
  have hnew : r ∉ n.accepted := fun hr => absurd (h.signalled r hr u _ hu) (by simp)
  rw [connectPeers_eq n hkj]
  constructor <;> simp only [List.mem_append, List.mem_singleton]
  case one =>
    intro v v' i w w' hv hv'
    obtain ⟨w₁, hv, -⟩ := SocketPc.of_connection_wakeConnector hv
    obtain ⟨w₂, hv', -⟩ := SocketPc.of_connection_wakeConnector hv'
    exact h.one v v' i w₁ w₂ hv hv'
  case waiting =>
    intro v i w hv
    obtain ⟨w', hv, -⟩ := SocketPc.of_connection_wakeConnector hv
    exact h.waiting v i w' hv
  case flag =>
    intro i
    by_cases hi : i = r
    · subst hi
      simp
    · rw [Function.update_of_ne hi, h.flag i]
      simp [hi]
  case accepted =>
    rintro i (hi | rfl)
    · exact h.accepted i hi
    · exact ⟨hlt, hrefused⟩
  case signalled =>
    intro i hi v w hv
    obtain ⟨w', hold, hor, hwoken⟩ := SocketPc.of_connection_wakeConnector hv
    rcases hi with hi | rfl
    · rcases hor with rfl | ⟨hw, -⟩
      · exact h.signalled i hi v _ hold
      · exact hw
    · -- The only thread with this request is the one that was asleep.
      obtain rfl := h.one u v i _ _ hu hold
      rw [hu] at hold
      exact hwoken rfl (Prod.mk.inj (Option.some.inj hold)).2.symm
  case connected => exact fun i hi => .inl (h.connected i hi)
  case refused => exact h.refused
  case nodup =>
    refine List.nodup_append.mpr ⟨h.nodup, List.nodup_singleton r, fun i hi j hj => ?_⟩
    rintro rfl
    exact hnew (List.mem_singleton.mp hj ▸ hi)

/-- A thread that makes a request waits for its answer. -/
theorem request_connection (n : Sockets) (u k l v : Nat) :
    ((n.request u k l).pc v).connection =
      if v = u then some (n.reqs, .asleep) else (n.pc v).connection := by
  unfold request
  simp only [Sockets.goto, Function.update_apply]
  split
  · rfl
  · rcases signalReqs_pc _ l v with he | he <;> rw [he]
    · rfl
    · rw [SocketPc.connection_wakeAcceptor]
      rfl

/-- A thread begins to wait for the answer to a new request. -/
theorem Agreed.makeRequest (h : n.Agreed) (u k l : Nat) : (n.request u k l).Agreed := by
  have hpc := n.request_connection u k l
  have heq := n.request_eq u k l
  have hreqs : (n.request u k l).reqs = n.reqs + 1 := by rw [heq]
  have hreq : (n.request u k l).req =
      Function.update n.req n.reqs { socket := k, accepted := false } := by rw [heq]
  have hnew : n.reqs ∉ n.accepted := fun hr => absurd (h.accepted _ hr).1 (Nat.lt_irrefl _)
  have hlists : (n.request u k l).accepted = n.accepted ∧
      (n.request u k l).connected = n.connected ∧ (n.request u k l).refused = n.refused := by
    rw [heq]
    exact ⟨rfl, rfl, rfl⟩
  obtain ⟨haccepted, hconnected, hrefused⟩ := hlists
  constructor <;> simp only [hpc, hreqs, hreq, haccepted, hconnected, hrefused]
  case one =>
    intro v v' i w w' hv hv'
    have hold : ∀ v w, (n.pc v).connection = some (n.reqs, w) → False := fun v w hv =>
      absurd (h.waiting v _ w hv).1 (Nat.lt_irrefl _)
    split at hv <;> split at hv'
    · rename_i he he'
      exact he.trans he'.symm
    · obtain ⟨rfl, -⟩ := Prod.mk.inj (Option.some.inj hv)
      exact (hold _ _ hv').elim
    · obtain ⟨rfl, -⟩ := Prod.mk.inj (Option.some.inj hv')
      exact (hold _ _ hv).elim
    · exact h.one v v' i w w' hv hv'
  case waiting =>
    intro v i w hv
    split at hv
    · obtain ⟨rfl, -⟩ := Prod.mk.inj (Option.some.inj hv)
      refine ⟨Nat.lt_succ_self _, fun hc => hnew (h.connected _ hc), fun hr => ?_⟩
      exact absurd (h.refused _ hr) (Nat.lt_irrefl _)
    · obtain ⟨hlt, hno⟩ := h.waiting v i w hv
      exact ⟨Nat.lt_succ_of_lt hlt, hno⟩
  case flag =>
    intro i
    by_cases hi : i = n.reqs
    · subst hi
      simp [hnew]
    · rw [Function.update_of_ne hi]
      exact h.flag i
  case accepted =>
    intro i hi
    obtain ⟨hlt, hno⟩ := h.accepted i hi
    exact ⟨Nat.lt_succ_of_lt hlt, hno⟩
  case signalled =>
    intro i hi v w hv
    split at hv
    · obtain ⟨rfl, -⟩ := Prod.mk.inj (Option.some.inj hv)
      exact absurd hi hnew
    · exact h.signalled i hi v w hv
  case connected => exact h.connected
  case refused => exact fun i hi => Nat.lt_succ_of_lt (h.refused i hi)
  case nodup => exact h.nodup

/-- A thread goes to another place in its wait, or out of it. -/
theorem Agreed.moves (h : n.Agreed) {pc : SocketPc} {w : TimedWait}
    (hu : (n.pc u).connection = some (r, w))
    (hpc : ∀ i w', pc.connection = some (i, w') → i = r ∧ r ∉ n.accepted) :
    (n.goto u pc).Agreed := by
  have hback : ∀ v i w', ((n.goto u pc).pc v).connection = some (i, w') →
      (∃ w'', (n.pc v).connection = some (i, w'')) ∧
        (v ≠ u ∧ (n.pc v).connection = some (i, w') ∨ i ∉ n.accepted) := by
    intro v i w' hv
    simp only [Sockets.goto, Function.update_apply] at hv
    split at hv
    · rename_i he
      obtain ⟨rfl, hno⟩ := hpc i w' hv
      exact ⟨⟨w, he ▸ hu⟩, .inr hno⟩
    · rename_i he
      exact ⟨⟨w', hv⟩, .inl ⟨he, hv⟩⟩
  constructor
  case one =>
    intro v v' i w₁ w₂ hv hv'
    obtain ⟨⟨w₁, hv⟩, -⟩ := hback v i _ hv
    obtain ⟨⟨w₂, hv'⟩, -⟩ := hback v' i _ hv'
    exact h.one v v' i w₁ w₂ hv hv'
  case waiting =>
    intro v i w' hv
    obtain ⟨⟨w'', hv⟩, -⟩ := hback v i w' hv
    exact h.waiting v i w'' hv
  case flag => exact h.flag
  case accepted => exact h.accepted
  case signalled =>
    intro i hi v w' hv
    obtain ⟨-, ⟨-, hv⟩ | hno⟩ := hback v i w' hv
    · exact h.signalled i hi v w' hv
    · exact absurd hi hno
  case connected => exact h.connected
  case refused => exact h.refused
  case nodup => exact h.nodup

/-- `Connect` returns. -/
theorem Agreed.answer (h : n.Agreed) {w : TimedWait} (hu : (n.pc u).connection = some (r, w)) :
    (n.answer u r w).Agreed := by
  obtain ⟨hlt, hconnected, hrefused⟩ := h.waiting u r w hu
  have hgoto : (n.goto u .busy).Agreed := h.moves hu (by simp [SocketPc.connection])
  have hgone : ∀ v i w', ((n.goto u .busy).pc v).connection = some (i, w') → i ≠ r := by
    rintro v i w' hv rfl
    simp only [Sockets.goto, Function.update_apply] at hv
    split at hv
    · exact absurd hv (by simp [SocketPc.connection])
    · rename_i hne
      exact hne (h.one v u i w' w hv hu)
  unfold Sockets.answer
  simp only
  split
  · rename_i hyes
    have hr : r ∈ n.accepted := (h.flag r).mp hyes.2
    constructor
    case one => exact hgoto.one
    case waiting =>
      intro v i w' hv
      obtain ⟨hlt, hno, hno'⟩ := hgoto.waiting v i w' hv
      refine ⟨hlt, fun hi => ?_, hno'⟩
      rcases List.mem_append.mp hi with hi | hi
      · exact hno hi
      · exact hgone v i w' hv (List.mem_singleton.mp hi)
    case flag => exact hgoto.flag
    case accepted => exact hgoto.accepted
    case signalled => exact hgoto.signalled
    case connected =>
      intro i hi
      rcases List.mem_append.mp hi with hi | hi
      · exact h.connected i hi
      · exact List.mem_singleton.mp hi ▸ hr
    case refused => exact hgoto.refused
    case nodup => exact hgoto.nodup
  · rename_i hno
    -- An accepted request has a thread that was signalled, and its flag is set.
    have hr : r ∉ n.accepted := fun hr => hno ⟨h.signalled r hr u w hu, (h.flag r).mpr hr⟩
    constructor
    case one => exact hgoto.one
    case waiting =>
      intro v i w' hv
      obtain ⟨hlt, hno, hno'⟩ := hgoto.waiting v i w' hv
      refine ⟨hlt, hno, fun hi => ?_⟩
      rcases List.mem_append.mp hi with hi | hi
      · exact hno' hi
      · exact hgone v i w' hv (List.mem_singleton.mp hi)
    case flag => exact hgoto.flag
    case accepted =>
      intro i hi
      obtain ⟨hlt, hno⟩ := h.accepted i hi
      refine ⟨hlt, fun hr' => ?_⟩
      rcases List.mem_append.mp hr' with hr' | hr'
      · exact hno hr'
      · exact hr (List.mem_singleton.mp hr' ▸ hi)
    case signalled => exact hgoto.signalled
    case connected => exact hgoto.connected
    case refused =>
      intro i hi
      rcases List.mem_append.mp hi with hi | hi
      · exact h.refused i hi
      · exact List.mem_singleton.mp hi ▸ hlt
    case nodup => exact hgoto.nodup

theorem close_connection {target : Option Nat} {k : Nat} (hc : n.close target k = some n')
    (u : Nat) : (n'.pc u).connection = (n.pc u).connection := by
  rcases close_pc hc u with he | he <;> rw [he]
  exact SocketPc.connection_wakeAcceptor k

end Sockets

namespace Streams

variable {s s' : Streams} {a : StreamAction} {n : Sockets}

/-- An `Accept` that answers a fid takes a request whose `Connect` is asleep. -/
def AcceptsWaiting (s : Streams) (a : StreamAction) : Prop :=
  ∀ r ∈ s.served a, ∃ u < s.threads, s.pc u = .connecting r .asleep

instance (s : Streams) (a : StreamAction) : Decidable (s.AcceptsWaiting a) := by
  unfold AcceptsWaiting
  infer_instance

theorem connection_of_pc {u r : Nat} {w : TimedWait} (hu : s.pc u = .connecting r w) :
    (s.sockets.pc u).connection = some (r, w) := by
  change (s.pc u).socketPc.connection = _
  rw [hu]
  rfl

theorem connection_eq_none {u l : Nat} (hu : s.pc u = .running ∨ s.pc u = .accepting l true) :
    (s.sockets.pc u).connection = none := by
  change (s.pc u).socketPc.connection = none
  rcases hu with hu | hu <;> rw [hu] <;> rfl

theorem SocketStep.agreed (h : s.sockets.Agreed) (ha : s.sockets.Allotted)
    (hc : s.AcceptsWaiting a) (hs : SocketStep s a n) : n.Agreed := by
  cases hs with
  | quiet => exact h
  | forget | pipe | create | listen => exact h.keep (fun _ => rfl) rfl rfl rfl rfl rfl
  | @sleep u l _ hu =>
    have hgoto : (s.sockets.goto u (.accepting l false)).Agreed :=
      h.goto (connection_eq_none (l := l) (.inl hu)) rfl
    exact hgoto.keep (fun _ => rfl) rfl rfl rfl rfl rfl
  | @refuse u l r m rs _ hu =>
    have hgoto : (s.sockets.goto u .busy).Agreed := h.goto (connection_eq_none hu) rfl
    have hpop : ((s.sockets.goto u .busy).popRequest l r rs).Agreed :=
      hgoto.keep (fun _ => rfl) rfl rfl rfl rfl rfl
    exact hpop.signalConn r
  | @serve u l r m rs f fid hp hu hq hserve =>
    have hgoto : (s.sockets.goto u .busy).Agreed := h.goto (connection_eq_none hu) rfl
    have hpop : (((s.sockets.goto u .busy).popRequest l r rs).create f (s.scb l).port fid).Agreed :=
      hgoto.keep (fun _ => rfl) rfl rfl rfl rfl rfl
    obtain ⟨v, -, hv⟩ := hc r (mem_served hp hq hserve)
    have hlt : (s.req r).socket < s.scbs := ha.req r (ha.queue l r (SCB.mem_queue hq))
    have hvu : v ≠ u := by
      rintro rfl
      rcases hu with hu | hu <;> rw [hu] at hv <;> exact absurd hv (by simp)
    have hwait : ((((s.sockets.goto u .busy).popRequest l r rs).create f (s.scb l).port fid).pc
        v).connection = some (r, .asleep) := by
      change ((s.sockets.goto u .busy).pc v).connection = _
      simp only [Sockets.goto, Function.update_of_ne hvu]
      exact connection_of_pc hv
    have hne : s.scbs ≠ (s.req r).socket := by omega
    exact hpop.accept hwait hne m
  | leave hu => exact h.goto (connection_eq_none (.inr hu)) rfl
  | request => exact h.makeRequest ..
  | answer hu => exact h.answer (connection_of_pc hu)
  | @timeout u r _ hu =>
    have hwait := connection_of_pc hu
    refine h.moves hwait fun i w' hi => ?_
    obtain ⟨rfl, -⟩ := Prod.mk.inj (Option.some.inj hi)
    exact ⟨rfl, fun hr => absurd (h.signalled _ hr u _ hwait) (by simp)⟩
  | shut =>
    rw [(Sockets.shuts_shutDown ..).eq]
    exact h.keep (fun _ => rfl) rfl rfl rfl rfl rfl
  | close _ _ _ _ hclose =>
    have heq := Sockets.close_eq hclose
    refine h.keep (Sockets.close_connection hclose) ?_ ?_ ?_ ?_ ?_ <;> rw [heq]
  | spawn =>
    have hborn : s.sockets.pc s.threads = .unborn := (ha.born s.threads).mpr (Nat.le_refl _)
    have hgoto : (s.sockets.goto s.threads .busy).Agreed := h.goto (by rw [hborn]; rfl) rfl
    exact hgoto.keep (fun _ => rfl) rfl rfl rfl rfl rfl

theorem agreed_initial (serialPorts : Nat) : (Streams.initial serialPorts).sockets.Agreed := by
  have hpc : ∀ u, ((Streams.initial serialPorts).sockets.pc u).connection = none := by
    intro u
    simp only [sockets, initial]
    split <;> rfl
  constructor
  case one => exact fun u _ _ _ _ hu => absurd (hpc u ▸ hu) (by simp)
  case waiting => exact fun u _ _ hu => absurd (hpc u ▸ hu) (by simp)
  all_goals simp [sockets, initial]

theorem agreed (hr : streamSys.ReachIf (fun s a => s.AcceptsWaiting a) s) : s.sockets.Agreed := by
  induction hr with
  | init hi =>
    obtain ⟨serialPorts, rfl⟩ := hi
    exact agreed_initial serialPorts
  | step hr hc hs ih => exact (socketStep hs).agreed ih (allotted hr) hc

/-- Only an `Accept` that answers a fid accepts a request. -/
theorem SocketStep.accepted (hs : SocketStep s a n) {r : Nat} (hr : r ∈ n.accepted)
    (hnew : r ∉ s.accepted) : r ∈ s.served a := by
  cases hs with
  | @serve u l r' m rs f fid hp hu hq hserve =>
    have hmem : r ∈ s.accepted ++ [r'] := by
      obtain ⟨scb, receive, send⟩ := m
      cases receive <;> cases send <;> exact hr
    rcases List.mem_append.mp hmem with hr | hr
    · exact absurd hr hnew
    · exact List.mem_singleton.mp hr ▸ mem_served hp hq hserve
  | request =>
    rw [Sockets.request_eq] at hr
    exact absurd hr hnew
  | answer =>
    unfold Sockets.answer at hr
    simp only at hr
    split at hr <;> exact absurd hr hnew
  | shut =>
    rw [(Sockets.shuts_shutDown ..).eq] at hr
    exact absurd hr hnew
  | close _ _ _ _ hclose =>
    rw [Sockets.close_eq hclose] at hr
    exact absurd hr hnew
  | _ => exact absurd hr hnew

/-- `Connect` and `Accept` have said the same about every request. -/
structure Agrees (s : Streams) : Prop where
  accepted : ∀ r ∈ s.accepted, r ∉ s.refused
  connected : ∀ r ∈ s.connected, s.accepted.count r = 1

/-- Every step from `s` that meets `C` accepts only requests whose `Connect` has not returned. -/
def AcceptsUnanswered (C : Streams → StreamAction → Prop) (s : Streams) : Prop :=
  ∀ a s', C s a → s.perform a = some s' → ∀ r ∈ s'.accepted, r ∉ s.accepted →
    r ∉ s.connected ∧ r ∉ s.refused

end Streams

end TinyOS
