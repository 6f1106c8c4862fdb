/-
# `Microstack.Proofs.Emission` — running a program from its container

A program can be assembled and run, or assembled, put in a container, taken out
again and run.  Both come to the same unless the run meets an instruction whose
argument is a digit as a character: `PUSH '5'` pushes 53, and what comes out of the
container is `PUSH 5`.

    PUSH '5'   PUSH 1   WRITE_DIR   HALT      writes  5
    out of a container                        writes  the character with code 5

`emission_keeps_meaning_iff` says that this is the only way in which the two can
differ, and that no digit is an exception.
-/
import Microstack.Assembly
import Microstack.Proofs.Container
import Microstack.Proofs.Lockstep

namespace Microstack

theorem sameAt_normalised {p : Program} {k : Nat}
    (h : ∀ i, p.instructions[k]? = some i → i.HasNoDigit) :
    SameAt p.instructions p.normalised.instructions k := by
  rw [SameAt, Program.normalised, List.getElem?_map]
  cases hi : p.instructions[k]? with
  | none => rfl
  | some i =>
    rw [Option.map_some, i.normalised_eq_self_iff.2 (h i hi)]

/-- A program means the same out of its container, on an input and a machine where
its run does not come to a digit. -/
theorem simulate_normalised {p : Program} {input : List Char} {config : Machine.Config}
    (h : ∀ m i, Machine.Reachable p input config m → m.memory.fetch m.pc = .ok i →
      i.HasNoDigit) :
    simulate p.normalised input config = simulate p input config := by
  refine simulate_congr rfl (List.length_map _) fun m hm => sameAt_normalised fun i hi => ?_
  exact h m i hm (hm.invariant.memory.fetch_eq_ok_iff.2 hi)

/-! ## Programs that write a digit -/

/-- The text of a program that writes a character. -/
def writerText (c : Char) : List Char :=
  "PUSH '".toList ++ c :: "'\nPUSH 1\nWRITE_DIR\nHALT".toList

def writer (c : Char) : Program where
  instructions :=
    [⟨.push, some (.char c), some ⟨1, "", "PUSH " ++ (Argument.char c).text⟩⟩,
      ⟨.push, some (.number ⟨1, by decide, by decide⟩), some ⟨2, "", "PUSH 1"⟩⟩,
      ⟨.writeDirect, none, some ⟨3, "", "WRITE_DIR"⟩⟩, ⟨.halt, none, some ⟨4, "", "HALT"⟩⟩]

theorem assemble_writerText {c : Char} (hc : c.isDigit = true) :
    Assembly.assemble (writerText c) = .ok (writer c) := by
  rcases Container.eq_of_isDigit hc with rfl | rfl | rfl | rfl | rfl | rfl | rfl | rfl | rfl | rfl
  all_goals rfl

theorem simulate_writer_ne {c : Char} (hc : c.isDigit = true) :
    simulate (writer c).normalised [] ⟨133, 3, 4⟩ ≠ simulate (writer c) [] ⟨133, 3, 4⟩ := by
  suffices houtput : (simulate (writer c).normalised [] ⟨133, 3, 4⟩).toOption.map Report.output ≠
      (simulate (writer c) [] ⟨133, 3, 4⟩).toOption.map Report.output by
    intro heq
    exact houtput (by rw [heq])
  rcases Container.eq_of_isDigit hc with rfl | rfl | rfl | rfl | rfl | rfl | rfl | rfl | rfl | rfl
  all_goals decide +kernel

/-- Allow some characters as arguments of the instructions that a run comes to.
Emission keeps the meaning of all assembled programs with such runs if and only if
no digit is allowed. -/
theorem emission_keeps_meaning_iff (allowed : Char → Prop) :
    (∀ (text : List Char) (p : Program) (input : List Char) (config : Machine.Config),
      Assembly.assemble text = .ok p →
      (∀ m i c, Machine.Reachable p input config m → m.memory.fetch m.pc = .ok i →
        i.argument = some (.char c) → allowed c) →
      ∃ q, Container.decode (Container.encode p).toList = .ok q ∧
        simulate q input config = simulate p input config) ↔
    ∀ c, allowed c → c.isDigit = false := by
  constructor
  · intro hall c hc
    refine Bool.eq_false_iff.2 fun hdigit => ?_
    -- The writer of this digit has no other character for an argument.
    obtain ⟨q, hq, heq⟩ := hall (writerText c) (writer c) [] ⟨133, 3, 4⟩
      (assemble_writerText hdigit) (by
        intro m i d hm hi hd
        have hi := List.mem_of_getElem? (hm.invariant.memory.fetch_eq_ok_iff.1 hi)
        simp only [writer, List.mem_cons, List.not_mem_nil, or_false] at hi
        rcases hi with rfl | rfl | rfl | rfl
        all_goals cases hd
        exact hc)
    rw [Container.decode_encode] at hq
    cases hq
    exact simulate_writer_ne hdigit heq
  · intro hnone text p input config _ hallowed
    refine ⟨p.normalised, Container.decode_encode p, simulate_normalised ?_⟩
    intro m i hm hi c hc
    exact hnone c (hallowed m i c hm hi hc)

/-- The program that writes the digit 5 is not the same program out of its container. -/
theorem emission_changes_meaning :
    ∃ text p q, Assembly.assemble text = .ok p ∧
      Container.decode (Container.encode p).toList = .ok q ∧
      simulate q [] ⟨133, 3, 4⟩ ≠ simulate p [] ⟨133, 3, 4⟩ :=
  ⟨writerText '5', writer '5', _, assemble_writerText rfl, Container.decode_encode _,
    simulate_writer_ne rfl⟩

end Microstack
