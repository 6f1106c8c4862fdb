/-
# `Microstack.Proofs.Journal` — calls made one after the other, whatever comes of them

An action leaves a state when it fails, too, and the next call is made from there.  Of a list
of calls, and the state it starts from, two things are kept:

    leavesAll    the state after the last call
    journal      a note of every call that completed, in order

A part of the machine that is what its journal says can be described without its state.  That
it is so is proved one call at a time: a call that completes adds its note, and a call that
fails adds nothing (`journal_keeps`).
-/
import Microstack.Proofs.Action

namespace Microstack

variable {ε σ α ι β : Type}

/-- The state that calls leave, each made from where the one before it stopped. -/
def leavesAll (perform : ι → EStateM ε σ α) : List ι → σ → σ
  | [], s => s
  | c :: cs, s => leavesAll perform cs (leaves (perform c) s)

/-- The notes of the calls that completed.  A note is taken of the state that the call was made
from, the call, and what it answered. -/
def journal (note : σ → ι → α → β) (perform : ι → EStateM ε σ α) : List ι → σ → List β
  | [], _ => []
  | c :: cs, s =>
    match perform c s with
    | .ok a s' => note s c a :: journal note perform cs s'
    | .error _ s' => journal note perform cs s'

variable {perform : ι → EStateM ε σ α} {note : σ → ι → α → β}

theorem leavesAll_append (cs ds : List ι) (s : σ) :
    leavesAll perform (cs ++ ds) s = leavesAll perform ds (leavesAll perform cs s) := by
  induction cs generalizing s with
  | nil => rfl
  | cons c cs ih => exact ih _

theorem Leads.leavesAll {P : σ → Prop} (h : ∀ c, Leads P (perform c) P) (cs : List ι) {s : σ}
    (hs : P s) : P (leavesAll perform cs s) := by
  induction cs generalizing s with
  | nil => exact hs
  | cons c cs ih => exact ih ((h c).leaves hs)

/-- A relation between notes and a state holds of the whole journal if a call that completes
keeps it with one more note, and a call that fails keeps it as it is. -/
theorem journal_keeps {R : List β → σ → Prop}
    (hok : ∀ notes s c a s', R notes s → perform c s = .ok a s' → R (notes ++ [note s c a]) s')
    (herror : ∀ notes s c e s', R notes s → perform c s = .error e s' → R notes s')
    (cs : List ι) {notes : List β} {s : σ} (h : R notes s) :
    R (notes ++ journal note perform cs s) (leavesAll perform cs s) := by
  induction cs generalizing notes s with
  | nil => exact (List.append_nil notes).symm ▸ h
  | cons c cs ih =>
    rw [journal, Microstack.leavesAll]
    cases hc : perform c s with
    | ok a s' =>
      rw [leaves_of_ok hc, List.append_cons]
      exact ih (hok notes s c a s' h hc)
    | error e s' =>
      rw [leaves_of_error hc]
      exact ih (herror notes s c e s' h hc)

end Microstack
