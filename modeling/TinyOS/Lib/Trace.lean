import Mathlib.Tactic.Common

/-!
# Traces

A trace is a list of events, the oldest first. `Each P l` says of every event of the trace that it
is in order, given the events before it. Nothing in this file says what an event is.
-/

set_option autoImplicit false

namespace Transition

variable {ε : Type*} {P Q : List ε → ε → Prop} {l : List ε} {e : ε}

def Each (P : List ε → ε → Prop) (l : List ε) : Prop :=
  ∀ pre e post, l = pre ++ e :: post → P pre e

theorem Each.nil : Each P [] := by
  intro pre e post h
  simp at h

/-- One event more. -/
theorem each_concat : Each P (l ++ [e]) ↔ Each P l ∧ P l e := by
  constructor
  · intro h
    exact ⟨fun pre e' post hl => h pre e' (post ++ [e]) (by simp [hl]), h l e [] rfl⟩
  · rintro ⟨hl, he⟩ pre e' post heq
    rcases List.eq_nil_or_concat post with rfl | ⟨post, e'', rfl⟩
    · obtain ⟨rfl, h⟩ := List.append_inj' heq rfl
      exact List.singleton_inj.mp h ▸ he
    · have heq : l ++ [e] = (pre ++ e' :: post) ++ [e''] := by simp [heq]
      exact hl pre e' post (List.append_inj' heq rfl).1

theorem Each.concat (h : Each P l) (he : P l e) : Each P (l ++ [e]) := each_concat.mpr ⟨h, he⟩

end Transition
