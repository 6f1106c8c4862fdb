/-
# `Microstack.Proofs.Effect` — the microcode against the table of stack effects

What a program can see of the machine is its `View`: the words on the stack, the
capacity of the stack, where the program text starts, the data words, the input
left, the output so far and the program counter.  The accumulator, the address
register, the slots above the head and the cells of the two ports are not in it.

`Effect` is the table of the instruction set, one constructor for each row, for
all opcodes but the two that address memory indirectly.  `HALT`, `MINUS`, `DIV` and
`PRINT` have no row: they never retire.

    v.words = w ++ [a, b]   →   next words w ++ [a, b, a]        (OVER, say)

The microcode of an opcode is a sequence of transfers, each with its own condition.
`step_retires_iff_effect` says that on every reachable machine these conditions
together are the condition of the row, and that what the transfers do together is
what the row says.
-/
import Microstack.Proofs.Machine

namespace Microstack

/-! ## What a program sees -/

/-- What a program can see of a machine. -/
structure View where
  /-- The words on the stack, bottom first. -/
  words : List Word
  capacity : Nat
  start : Nat
  /-- The word at a data address.  Ports and program text show as 0. -/
  data : Int → Word
  input : List Char
  output : List String
  pc : Nat

namespace View

/-- The view with other words on the stack, at another instruction. -/
def goto (v : View) (words : List Word) (pc : Nat) : View := { v with words, pc }

/-- The view with other words on the stack, at the next instruction. -/
def next (v : View) (words : List Word) : View := v.goto words (v.pc + 1)

def store (v : View) (address : Int) (w : Word) : View :=
  { v with data := fun a => if a = address then w else v.data a }

def consume (v : View) (rest : List Char) : View := { v with input := rest }

/-- The view with one more token on the output. -/
def emit (v : View) (w : Word) : View := { v with output := v.output ++ [Memory.token w] }

end View

def Machine.view (m : Machine) : View where
  words := m.datapath.words
  capacity := m.datapath.capacity
  start := m.memory.programStart
  data a := if 2 ≤ a then (m.memory.peek? a.toNat).getD 0 else 0
  input := m.memory.input
  output := m.memory.output.toList
  pc := m.pc

/-- The machine in the middle of an instruction: all but the program counter and
the instruction itself may have changed. -/
def Machine.holding (m : Machine) (mem : Memory) (d : Datapath) (ticks : Nat) : Machine :=
  { m with memory := mem, datapath := d, ticks := ticks }

/-! What the changes of memory and of the datapath do to the view. -/

namespace Machine

variable (m : Machine) (mem : Memory) (d : Datapath) (ticks : Nat)

theorem view_consumed (c : Char) (rest : List Char) :
    (m.holding (mem.consumed c rest) d ticks).view = (m.holding mem d ticks).view.consume rest := by
  have hdata (a : Int) (ha : 2 ≤ a) : (mem.consumed c rest).peek? a.toNat = mem.peek? a.toNat :=
    Memory.peek?_stored_ne (by omega)
  simp only [view, View.consume, View.mk.injEq]
  refine ⟨rfl, rfl, rfl, ?_, rfl, rfl, rfl⟩
  funext a
  split
  · next ha => exact congrArg (Option.getD · 0) (hdata a ha)
  · rfl

theorem view_emitted (w : Word) :
    (m.holding (mem.emitted w) d ticks).view = (m.holding mem d ticks).view.emit w := by
  have hdata (a : Int) (ha : 2 ≤ a) : (mem.emitted w).peek? a.toNat = mem.peek? a.toNat :=
    Memory.peek?_stored_ne (by omega)
  simp only [view, View.emit, View.mk.injEq]
  refine ⟨rfl, rfl, rfl, ?_, rfl, ?_, rfl⟩
  · funext a
    split
    · next ha => exact congrArg (Option.getD · 0) (hdata a ha)
    · rfl
  · simp [holding, Memory.emitted]

theorem view_stored {a : Nat} (hport : 2 ≤ a) (hsize : a < mem.size) (w : Word) :
    (m.holding (mem.stored a w) d ticks).view = (m.holding mem d ticks).view.store a w := by
  simp only [view, View.store, View.mk.injEq]
  refine ⟨rfl, rfl, rfl, ?_, rfl, rfl, rfl⟩
  funext b
  show (if 2 ≤ b then ((mem.stored a w).peek? b.toNat).getD 0 else 0) =
    if b = a then w else if 2 ≤ b then (mem.peek? b.toNat).getD 0 else 0
  by_cases hb : b = a
  · rw [if_pos hb, if_pos (by omega), show b.toNat = a by omega, Memory.peek?_stored_self hsize]
    rfl
  · rw [if_neg hb]
    split
    · rw [Memory.peek?_stored_ne (by omega)]
    · rfl

theorem view_data {n : Nat} {text : List Instruction} (hm : mem.Loaded n text) {a : Int}
    (hport : 2 ≤ a) (hlt : a < mem.programStart) :
    mem.peek? a.toNat = some ((m.holding mem d ticks).view.data a) := by
  obtain ⟨x, hx⟩ := hm.exists_peek? (a := a.toNat) (by omega)
  show mem.peek? a.toNat = some (if 2 ≤ a then (mem.peek? a.toNat).getD 0 else 0)
  rw [if_pos hport, hx]
  rfl

/-- The words of the machine in the middle do not matter at its end. -/
theorem next_holding (hcap : d.capacity = m.datapath.capacity) (words : List Word) :
    (m.holding mem d ticks).view.next words =
      (m.holding mem m.datapath m.ticks).view.next words := by
  simp only [view, View.next, View.goto, holding, hcap]

end Machine

/-- The table of effects: `Effect arg v op v'` says that an instruction with the
opcode `op` and the argument `arg` retires from `v` and leaves `v'`. -/
inductive Effect (argument : Option Argument) (v : View) : Opcode → View → Prop
  | push {arg : Argument} : argument = some arg → v.words.length + 1 < v.capacity →
      Effect argument v .push (v.next (v.words ++ [arg.value]))
  | dup {w : List Word} {a : Word} : v.words = w ++ [a] → v.words.length + 1 < v.capacity →
      Effect argument v .dup (v.next (w ++ [a, a]))
  | dupUnder {w : List Word} {a b : Word} : v.words = w ++ [a, b] →
      v.words.length + 1 < v.capacity →
      Effect argument v .dupUnder (v.next (w ++ [a, b, a]))
  | swap {w : List Word} {a b : Word} : v.words = w ++ [a, b] →
      Effect argument v .swap (v.next (w ++ [b, a]))
  | rot {w : List Word} {a b c : Word} : v.words = w ++ [a, b, c] →
      Effect argument v .rot (v.next (w ++ [b, c, a]))
  | drop {w : List Word} {a : Word} : v.words = w ++ [a] →
      Effect argument v .drop (v.next w)
  | begin : Effect argument v .begin (v.next v.words)
  | nop : Effect argument v .nop (v.next v.words)
  | arithmetic {opcode : Opcode} {op : AluOp} {w operands : List Word} {r : Word} :
      AluOp.ofOpcode? opcode = some op → v.words = w ++ operands →
      op.value? operands = some r →
      Effect argument v opcode (v.next (w ++ [r]))
  | readData {w : List Word} {a : Word} : v.words = w ++ [a] →
      2 ≤ a.toInt → a.toInt < v.start →
      Effect argument v .readDirect (v.next (w ++ [v.data a.toInt]))
  | readInput {w : List Word} {a : Word} {c : Char} {rest : List Char} :
      v.words = w ++ [a] → a.toInt = 0 → v.input = c :: rest →
      Effect argument v .readDirect ((v.consume rest).next (w ++ [Word.ofChar c]))
  | writeData {w : List Word} {x a : Word} : v.words = w ++ [x, a] →
      2 ≤ a.toInt → a.toInt < v.start →
      Effect argument v .writeDirect ((v.store a.toInt x).next w)
  | writeOutput {w : List Word} {x a : Word} : v.words = w ++ [x, a] → a.toInt = 1 →
      Effect argument v .writeDirect ((v.emit x).next w)
  | jump {n : Word} : argument = some (.number n) → 0 ≤ n.toInt →
      Effect argument v .jmp (v.goto v.words n.toInt.toNat)
  | fallThrough {w : List Word} {b : Word} : v.words = w ++ [b] → b = Word.yes →
      Effect argument v .jnt (v.next w)
  | branch {w : List Word} {b n : Word} : v.words = w ++ [b] → b ≠ Word.yes →
      argument = some (.number n) → 0 ≤ n.toInt →
      Effect argument v .jnt (v.goto w n.toInt.toNat)

/-! ## Completing with a view -/

/-- The microcode completes from a machine, with a view at the end. -/
def Retires (c : Microcode Unit) (m : Machine) (v : View) : Prop :=
  ∃ m', c m = .ok () m' ∧ m'.view = v

/-- The end of an instruction: words are pushed, and the program counter moves on. -/
def finishWith : List Word → Microcode Unit
  | [] => Microcode.advance >>= fun _ => Microcode.tick
  | w :: ws => Microcode.push w >>= fun _ => finishWith ws

section Microcode

open Microcode

variable {program : Program} {config : Machine.Config} {m : Machine} {v : View}

theorem retires_bind {α : Type} {c : Microcode α} {f : α → Microcode Unit} :
    Retires (c >>= f) m v ↔ ∃ a mid, c m = .ok a mid ∧ Retires (f a) mid v := by
  simp only [Retires, bind_eq_ok_iff]
  constructor
  · rintro ⟨m', ⟨a, mid, hc, hf⟩, hv⟩
    exact ⟨a, mid, hc, m', hf, hv⟩
  · rintro ⟨a, mid, hc, m', hf, hv⟩
    exact ⟨m', ⟨a, mid, hc, hf⟩, hv⟩

theorem retires_inspect {α : Type} {look : Machine → Except Fault α} {f : α → Microcode Unit} :
    Retires (inspect look >>= f) m v ↔ ∃ a, look m = .ok a ∧ Retires (f a) m v := by
  simp only [retires_bind, inspect_eq_ok_iff]
  constructor
  · rintro ⟨a, _, ⟨hlook, rfl⟩, hf⟩
    exact ⟨a, hlook, hf⟩
  · rintro ⟨a, hlook, hf⟩
    exact ⟨a, m, ⟨hlook, rfl⟩, hf⟩

theorem not_retires_throw {t : Trap} : ¬ Retires (throw t) m v := by
  rintro ⟨_, heq, -⟩
  cases heq

/-! The transfers, one by one, in the middle of an instruction. -/

section Transfers

variable {mem : Memory} {d : Datapath} {ticks : Nat} {f : Unit → Microcode Unit}

theorem retires_tick :
    Retires (tick >>= f) (m.holding mem d ticks) v ↔
      Retires (f ()) (m.holding mem d (ticks + 1)) v := by
  simp only [retires_bind, tick_eq_ok_iff, exists_eq_left]
  exact ⟨fun ⟨_, hf⟩ => hf, fun hf => ⟨(), hf⟩⟩

theorem retires_accumulator {f : Word → Microcode Unit} :
    Retires (accumulator >>= f) (m.holding mem d ticks) v ↔
      Retires (f d.accumulator) (m.holding mem d ticks) v := by
  simp only [retires_bind, accumulator_eq_ok_iff]
  constructor
  · rintro ⟨_, _, ⟨rfl, rfl⟩, hf⟩
    exact hf
  · intro hf
    exact ⟨_, _, ⟨rfl, rfl⟩, hf⟩

theorem retires_push (h : d.Fits) {x : Word} :
    Retires (push x >>= f) (m.holding mem d ticks) v ↔
      d.words.length + 1 < d.capacity ∧
        Retires (f ()) (m.holding mem (d.pushed x) ticks) v := by
  simp only [retires_bind, push_eq_ok_iff, h.length_words]
  constructor
  · rintro ⟨_, _, ⟨hroom, rfl⟩, hf⟩
    exact ⟨hroom, hf⟩
  · rintro ⟨hroom, hf⟩
    exact ⟨(), _, ⟨hroom, rfl⟩, hf⟩

theorem retires_drop (h : d.Fits) {w xs : List Word} (hw : d.words = w ++ xs)
    (hk : 1 ≤ xs.length ∧ xs.length ≤ 3) :
    Retires (adjustHead (-xs.length) >>= f) (m.holding mem d ticks) v ↔
      Retires (f ()) (m.holding mem (d.popped xs.length) ticks) v := by
  have hhead : d.head = w.length + xs.length := by
    rw [← h.length_words, hw, List.length_append]
  simp only [retires_bind, adjustHead_eq_ok_iff hk]
  constructor
  · rintro ⟨_, _, ⟨-, -, rfl⟩, hf⟩
    exact hf
  · intro hf
    exact ⟨(), _, ⟨by show xs.length ≤ d.head; omega, h.popped _, rfl⟩, hf⟩

theorem retires_dropOne (h : d.Fits) {w : List Word} {a : Word} (hw : d.words = w ++ [a]) :
    Retires (adjustHead (-1) >>= f) (m.holding mem d ticks) v ↔
      Retires (f ()) (m.holding mem (d.popped 1) ticks) v :=
  retires_drop h hw (by simp)

theorem retires_dropTwo (h : d.Fits) {w : List Word} {a b : Word} (hw : d.words = w ++ [a, b]) :
    Retires (adjustHead (-2) >>= f) (m.holding mem d ticks) v ↔
      Retires (f ()) (m.holding mem (d.popped 2) ticks) v :=
  retires_drop h hw (by simp)

theorem retires_dropThree (h : d.Fits) {w : List Word} {a b c : Word}
    (hw : d.words = w ++ [a, b, c]) :
    Retires (adjustHead (-3) >>= f) (m.holding mem d ticks) v ↔
      Retires (f ()) (m.holding mem (d.popped 3) ticks) v :=
  retires_drop h hw (by simp)

theorem retires_latchAddress {offset : Nat} :
    Retires (latchAddress offset >>= f) (m.holding mem d ticks) v ↔
      ∃ a, d.top offset = .ok a ∧ 0 ≤ a.toInt ∧ a.toInt ≤ mem.size ∧
        Retires (f ()) (m.holding (mem.addressed a.toInt.toNat) d ticks) v := by
  simp only [retires_bind, latchAddress_eq_ok_iff]
  constructor
  · rintro ⟨_, _, ⟨a, ha, h0, hsize, rfl⟩, hr⟩
    exact ⟨a, ha, h0, hsize, hr⟩
  · rintro ⟨a, ha, h0, hsize, hr⟩
    exact ⟨(), _, ⟨a, ha, h0, hsize, rfl⟩, hr⟩

variable {n : Nat} {text : List Instruction}

theorem retires_read (hm : mem.Loaded n text) {f : Word → Microcode Unit} :
    Retires (Microcode.read >>= f) (m.holding mem d ticks) v ↔
      (mem.address = 0 ∧ ∃ c rest, mem.input = c :: rest ∧
        Retires (f (Word.ofChar c)) (m.holding (mem.consumed c rest) d ticks) v) ∨
      (2 ≤ mem.address ∧ mem.address < mem.programStart ∧
        ∃ x, mem.peek? mem.address = some x ∧ Retires (f x) (m.holding mem d ticks) v) := by
  simp only [Microcode.read, retires_bind, memory_eq_ok_iff, Machine.holding, hm.read_eq_ok_iff]
  constructor
  · rintro ⟨_, _, ⟨_, ⟨h0, c, rest, hin, rfl, rfl⟩ | ⟨hport, hlt, hx, rfl⟩, rfl⟩, hr⟩
    · exact .inl ⟨h0, c, rest, hin, hr⟩
    · exact .inr ⟨hport, hlt, _, hx, hr⟩
  · rintro (⟨h0, c, rest, hin, hr⟩ | ⟨hport, hlt, x, hx, hr⟩)
    · exact ⟨_, _, ⟨_, .inl ⟨h0, c, rest, hin, rfl, rfl⟩, rfl⟩, hr⟩
    · exact ⟨_, _, ⟨_, .inr ⟨hport, hlt, hx, rfl⟩, rfl⟩, hr⟩

theorem retires_write (hm : mem.Loaded n text) {x : Word} :
    Retires (Microcode.write x >>= f) (m.holding mem d ticks) v ↔
      (mem.address = 1 ∧ Retires (f ()) (m.holding (mem.emitted x) d ticks) v) ∨
      (2 ≤ mem.address ∧ mem.address < mem.programStart ∧
        Retires (f ()) (m.holding (mem.stored mem.address x) d ticks) v) := by
  simp only [Microcode.write, retires_bind, memory_eq_ok_iff, Machine.holding, hm.write_eq_ok_iff]
  constructor
  · rintro ⟨_, _, ⟨_, ⟨h1, rfl⟩ | ⟨hport, hlt, rfl⟩, rfl⟩, hr⟩
    · exact .inl ⟨h1, hr⟩
    · exact .inr ⟨hport, hlt, hr⟩
  · rintro (⟨h1, hr⟩ | ⟨hport, hlt, hr⟩)
    · exact ⟨(), _, ⟨_, .inl ⟨h1, rfl⟩, rfl⟩, hr⟩
    · exact ⟨(), _, ⟨_, .inr ⟨hport, hlt, rfl⟩, rfl⟩, hr⟩

theorem retires_load (hm : mem.Loaded n text) {a : Word} {f : Word → Microcode Unit} :
    (0 ≤ a.toInt ∧ a.toInt ≤ mem.size ∧
        Retires (Microcode.read >>= f) (m.holding (mem.addressed a.toInt.toNat) d ticks) v) ↔
      (a.toInt = 0 ∧ ∃ c rest, mem.input = c :: rest ∧
        Retires (f (Word.ofChar c)) (m.holding ((mem.addressed 0).consumed c rest) d ticks) v) ∨
      (2 ≤ a.toInt ∧ a.toInt < mem.programStart ∧
        Retires (f ((m.holding mem d ticks).view.data a.toInt))
          (m.holding (mem.addressed a.toInt.toNat) d ticks) v) := by
  have hstart := hm.start_le
  constructor
  · rintro ⟨h0, hsize, hr⟩
    rw [retires_read (hm.addressed (by omega))] at hr
    rcases hr with ⟨haddr, c, rest, hin, hr⟩ | ⟨hport, hlt, x, hx, hr⟩
    · change a.toInt.toNat = 0 at haddr
      rw [haddr] at hr
      exact .inl ⟨by omega, c, rest, hin, hr⟩
    · change 2 ≤ a.toInt.toNat at hport
      change a.toInt.toNat < mem.programStart at hlt
      have hdata := m.view_data mem d ticks hm (a := a.toInt) (by omega) (by omega)
      obtain rfl := Option.some.inj (hx.symm.trans hdata)
      exact .inr ⟨by omega, by omega, hr⟩
  · rintro (⟨h0, c, rest, hin, hr⟩ | ⟨hport, hlt, hr⟩)
    · refine ⟨by omega, by omega, ?_⟩
      rw [h0]
      exact (retires_read (hm.addressed (Nat.zero_le _))).2 (.inl ⟨rfl, c, rest, hin, hr⟩)
    · refine ⟨by omega, by omega, (retires_read (hm.addressed (by omega))).2 (.inr ?_)⟩
      refine ⟨?_, ?_, _, m.view_data mem d ticks hm hport hlt, hr⟩
      · show 2 ≤ a.toInt.toNat
        omega
      · show a.toInt.toNat < mem.programStart
        omega

theorem retires_store (hm : mem.Loaded n text) {a x : Word} :
    (0 ≤ a.toInt ∧ a.toInt ≤ mem.size ∧
        Retires (Microcode.write x >>= f) (m.holding (mem.addressed a.toInt.toNat) d ticks) v) ↔
      (a.toInt = 1 ∧ Retires (f ()) (m.holding ((mem.addressed 1).emitted x) d ticks) v) ∨
      (2 ≤ a.toInt ∧ a.toInt < mem.programStart ∧
        Retires (f ())
          (m.holding ((mem.addressed a.toInt.toNat).stored a.toInt.toNat x) d ticks) v) := by
  have hstart := hm.start_le
  have htwo := hm.two_lt
  constructor
  · rintro ⟨h0, hsize, hr⟩
    rw [retires_write (hm.addressed (by omega))] at hr
    rcases hr with ⟨haddr, hr⟩ | ⟨hport, hlt, hr⟩
    · change a.toInt.toNat = 1 at haddr
      rw [haddr] at hr
      exact .inl ⟨by omega, hr⟩
    · change 2 ≤ a.toInt.toNat at hport
      change a.toInt.toNat < mem.programStart at hlt
      exact .inr ⟨by omega, by omega, hr⟩
  · rintro (⟨h1, hr⟩ | ⟨hport, hlt, hr⟩)
    · refine ⟨by omega, by omega, ?_⟩
      rw [h1]
      exact (retires_write (hm.addressed (by omega))).2 (.inl ⟨rfl, hr⟩)
    · refine ⟨by omega, by omega, (retires_write (hm.addressed (by omega))).2 (.inr ?_)⟩
      refine ⟨?_, ?_, hr⟩
      · show 2 ≤ a.toInt.toNat
        omega
      · show a.toInt.toNat < mem.programStart
        omega

end Transfers

theorem retires_finishWith (h : m.datapath.Fits) {ws : List Word} :
    Retires (finishWith ws) m v ↔
      m.datapath.words.length + ws.length < m.datapath.capacity ∧
        v = m.view.next (m.datapath.words ++ ws) := by
  induction ws generalizing m with
  | nil =>
    have hlt : m.datapath.words.length < m.datapath.capacity := by
      rw [h.length_words]
      exact h
    simp only [finishWith, Retires, bind_eq_ok_iff, advance_eq_ok_iff, tick_eq_ok_iff,
      List.append_nil, List.length_nil, Nat.add_zero]
    constructor
    · rintro ⟨_, ⟨_, _, rfl, rfl⟩, rfl⟩
      exact ⟨hlt, rfl⟩
    · rintro ⟨-, rfl⟩
      exact ⟨_, ⟨(), _, rfl, rfl⟩, rfl⟩
  | cons w ws ih =>
    have hwords := h.words_pushed w
    have hlen := h.length_words
    simp only [finishWith, retires_bind, push_eq_ok_iff]
    constructor
    · rintro ⟨_, _, ⟨hroom, rfl⟩, hrest⟩
      have hfits : (m.datapath.pushed w).Fits := by simpa [Datapath.Fits] using hroom
      obtain ⟨hall, rfl⟩ := (ih hfits).1 hrest
      simp only [hwords, Datapath.capacity_pushed, List.length_append, List.length_singleton]
        at hall
      refine ⟨by simp only [List.length_cons]; omega, ?_⟩
      rw [hwords, List.append_assoc]
      simp only [Machine.view, View.next, Datapath.capacity_pushed]
      rfl
    · rintro ⟨hall, rfl⟩
      simp only [List.length_cons] at hall
      have hroom : m.datapath.head + 1 < m.datapath.capacity := by omega
      have hfits : (m.datapath.pushed w).Fits := by simpa [Datapath.Fits] using hroom
      refine ⟨(), _, ⟨hroom, rfl⟩, (ih hfits).2 ⟨?_, ?_⟩⟩
      · simp only [hwords, Datapath.capacity_pushed, List.length_append, List.length_singleton]
        omega
      · rw [hwords, List.append_assoc]
        simp only [Machine.view, View.next, Datapath.capacity_pushed]
        rfl

theorem retires_finish {mem : Memory} {d : Datapath} {ticks : Nat} (h : d.Fits)
    (hcap : d.capacity = m.datapath.capacity) {w : List Word} (hw : d.words = w) (ws : List Word) :
    Retires (finishWith ws) (m.holding mem d ticks) v ↔
      w.length + ws.length < m.datapath.capacity ∧
        v = (m.holding mem m.datapath m.ticks).view.next (w ++ ws) := by
  subst hw
  rw [← hcap, ← m.next_holding mem d ticks hcap]
  exact retires_finishWith h

theorem retires_replace (h : m.datapath.Fits) {w xs : List Word}
    (hw : m.datapath.words = w ++ xs) (hk : 1 ≤ xs.length ∧ xs.length ≤ 3) (ys : List Word) :
    Retires (adjustHead (-xs.length) >>= fun _ => finishWith ys) m v ↔
      w.length + ys.length < m.datapath.capacity ∧ v = m.view.next (w ++ ys) := by
  show Retires _ (m.holding m.memory m.datapath m.ticks) v ↔ _
  rw [retires_drop h hw hk]
  exact retires_finish (h.popped _) rfl (h.words_popped hw) ys

theorem retires_two (h : m.datapath.Fits) {f : Word → Word → Microcode Unit} :
    Retires (top 0 >>= fun b => top 1 >>= fun a => f a b) m v ↔
      ∃ w a b, m.datapath.words = w ++ [a, b] ∧ Retires (f a b) m v := by
  simp only [top, retires_inspect]
  constructor
  · rintro ⟨b, hb, a, ha, hrest⟩
    obtain ⟨w, b', hw⟩ := h.top_one_eq_ok_iff.1 ha
    obtain rfl := Except.ok.inj ((h.top_zero_of_two hw).symm.trans hb)
    exact ⟨w, a, b', hw, hrest⟩
  · rintro ⟨w, a, b, hw, hrest⟩
    exact ⟨b, h.top_zero_of_two hw, a, h.top_one_eq_ok_iff.2 ⟨w, b, hw⟩, hrest⟩

theorem retires_three (h : m.datapath.Fits) {f : Word → Word → Word → Microcode Unit} :
    Retires (top 0 >>= fun c => top 1 >>= fun b => top 2 >>= fun a => f a b c) m v ↔
      ∃ w a b c, m.datapath.words = w ++ [a, b, c] ∧ Retires (f a b c) m v := by
  rw [retires_two h]
  simp only [top, retires_inspect]
  constructor
  · rintro ⟨w', b, c, hw', a, ha, hrest⟩
    obtain ⟨w, b', c', hw⟩ := h.top_two_eq_ok_iff.1 ha
    -- Both shapes end in the same two words.
    have hends : w' ++ [b, c] = (w ++ [a]) ++ [b', c'] := by
      rw [← hw', hw, List.append_assoc]
      rfl
    obtain ⟨-, heq⟩ := List.append_inj' hends rfl
    cases heq
    exact ⟨w, a, b, c, hw, hrest⟩
  · rintro ⟨w, a, b, c, hw, hrest⟩
    exact ⟨w ++ [a], b, c, by simpa using hw, a, h.top_two_eq_ok_iff.2 ⟨w, b, c, hw⟩, hrest⟩

/-! ## The microcode of the opcodes -/

theorem retires_noOperation (h : m.datapath.Fits) :
    Retires noOperation m v ↔ v = m.view.next m.view.words := by
  rw [show noOperation = finishWith [] from rfl, retires_finishWith h, List.append_nil]
  constructor
  · rintro ⟨-, hv⟩
    exact hv
  · intro hv
    exact ⟨h.length_lt rfl, hv⟩

theorem retires_pushLiteral (h : m.datapath.Fits) {i : Instruction} :
    Retires (pushLiteral i) m v ↔
      ∃ arg, i.argument = some arg ∧ m.view.words.length + 1 < m.view.capacity ∧
        v = m.view.next (m.view.words ++ [arg.value]) := by
  rw [show pushLiteral i = inspect (fun _ => i.literal) >>= fun w => finishWith [w] from rfl,
    retires_inspect]
  simp only [retires_finishWith h, Instruction.literal]
  cases i.argument with
  | none => simp
  | some arg => simp [Machine.view]

theorem retires_duplicate (h : m.datapath.Fits) :
    Retires duplicate m v ↔
      ∃ w a, m.view.words = w ++ [a] ∧ m.view.words.length + 1 < m.view.capacity ∧
        v = m.view.next (w ++ [a, a]) := by
  rw [show duplicate = inspect (fun m => m.datapath.top 0) >>= fun a => finishWith [a] from rfl,
    retires_inspect]
  simp only [retires_finishWith h, h.top_zero_eq_ok_iff]
  constructor
  · rintro ⟨a, ⟨w, hw⟩, hroom, rfl⟩
    refine ⟨w, a, hw, hroom, ?_⟩
    rw [hw, List.append_assoc]
    rfl
  · rintro ⟨w, a, hw, hroom, rfl⟩
    refine ⟨a, ⟨w, hw⟩, hroom, ?_⟩
    rw [show m.datapath.words = w ++ [a] from hw, List.append_assoc]
    rfl

theorem retires_duplicateUnder (h : m.datapath.Fits) :
    Retires duplicateUnder m v ↔
      ∃ w a b, m.view.words = w ++ [a, b] ∧ m.view.words.length + 1 < m.view.capacity ∧
        v = m.view.next (w ++ [a, b, a]) := by
  rw [show duplicateUnder =
    inspect (fun m => m.datapath.top 1) >>= fun a => finishWith [a] from rfl, retires_inspect]
  simp only [retires_finishWith h, h.top_one_eq_ok_iff]
  constructor
  · rintro ⟨a, ⟨w, b, hw⟩, hroom, rfl⟩
    refine ⟨w, a, b, hw, hroom, ?_⟩
    rw [hw, List.append_assoc]
    rfl
  · rintro ⟨w, a, b, hw, hroom, rfl⟩
    refine ⟨a, ⟨w, b, hw⟩, hroom, ?_⟩
    rw [show m.datapath.words = w ++ [a, b] from hw, List.append_assoc]
    rfl

theorem retires_swap (h : m.datapath.Fits) :
    Retires swap m v ↔
      ∃ w a b, m.view.words = w ++ [a, b] ∧ v = m.view.next (w ++ [b, a]) := by
  rw [show swap = top 0 >>= fun b => top 1 >>= fun a =>
    adjustHead (-2) >>= fun _ => finishWith [b, a] from rfl, retires_two h]
  constructor
  · rintro ⟨w, a, b, hw, hrest⟩
    exact ⟨w, a, b, hw, ((retires_replace h hw (by simp) _).1 hrest).2⟩
  · rintro ⟨w, a, b, hw, rfl⟩
    have hroom := h.length_lt hw
    rw [List.length_append] at hroom
    exact ⟨w, a, b, hw, (retires_replace h hw (by simp) _).2 ⟨hroom, rfl⟩⟩

theorem retires_rotate (h : m.datapath.Fits) :
    Retires rotate m v ↔
      ∃ w a b c, m.view.words = w ++ [a, b, c] ∧ v = m.view.next (w ++ [b, c, a]) := by
  rw [show rotate = top 0 >>= fun c => top 1 >>= fun b => top 2 >>= fun a =>
    adjustHead (-3) >>= fun _ => finishWith [b, c, a] from rfl, retires_three h]
  constructor
  · rintro ⟨w, a, b, c, hw, hrest⟩
    exact ⟨w, a, b, c, hw, ((retires_replace h hw (by simp) _).1 hrest).2⟩
  · rintro ⟨w, a, b, c, hw, rfl⟩
    have hroom := h.length_lt hw
    rw [List.length_append] at hroom
    exact ⟨w, a, b, c, hw, (retires_replace h hw (by simp) _).2 ⟨hroom, rfl⟩⟩

theorem retires_dropTop (h : m.datapath.Fits) :
    Retires Microcode.drop m v ↔ ∃ w a, m.view.words = w ++ [a] ∧ v = m.view.next w := by
  rw [show Microcode.drop = adjustHead (-1) >>= fun _ => finishWith [] from rfl]
  constructor
  · intro hrest
    obtain ⟨_, _, hhead, -⟩ := retires_bind.1 hrest
    obtain ⟨hpos, -, -⟩ := (adjustHead_eq_ok_iff (k := 1) (by decide)).1 hhead
    obtain ⟨w, xs, hw, hl⟩ := h.exists_words hpos
    obtain ⟨a, rfl⟩ := List.length_eq_one_iff.1 hl
    have hv := ((retires_replace h hw (by simp) []).1 hrest).2
    rw [List.append_nil] at hv
    exact ⟨w, a, hw, hv⟩
  · rintro ⟨w, a, hw, rfl⟩
    have hroom := h.length_lt hw
    rw [List.length_append] at hroom
    refine (retires_replace h hw (by simp) []).2 ⟨Nat.lt_of_le_of_lt ?_ hroom, ?_⟩
    · exact Nat.add_le_add_left (Nat.zero_le _) _
    · rw [List.append_nil]

theorem retires_arithmetic (h : m.datapath.Fits) {op : AluOp} :
    Retires (arithmetic op) m v ↔
      ∃ w operands r, m.view.words = w ++ operands ∧ op.value? operands = some r ∧
        v = m.view.next (w ++ [r]) := by
  -- Once the result is in the accumulator, it takes the place of the operands.
  have hrest {w operands : List Word} {r : Word} (hw : m.datapath.words = w ++ operands)
      (hv : op.value? operands = some r) :
      Retires (adjustHead (-op.arity) >>= fun _ => tick >>= fun _ => accumulator >>= fun r =>
        finishWith [r]) { m with datapath := m.datapath.accumulated r } v ↔
          v = m.view.next (w ++ [r]) := by
    have hlen := AluOp.length_of_value? hv
    have hbounds := op.arity_bounds
    have hlt := h.length_lt hw
    rw [List.length_append] at hlt
    rw [← hlen] at hbounds ⊢
    show Retires _ (m.holding m.memory (m.datapath.accumulated r) m.ticks) v ↔ _
    rw [retires_drop (h.accumulated r) hw hbounds, retires_tick, retires_accumulator,
      retires_finish ((h.accumulated r).popped _) rfl ((h.accumulated r).words_popped hw)]
    constructor
    · rintro ⟨-, rfl⟩
      rfl
    · rintro rfl
      refine ⟨Nat.lt_of_le_of_lt ?_ hlt, rfl⟩
      simp only [List.length_singleton]
      omega
  rw [show arithmetic op = latchAlu op >>= fun _ => adjustHead (-op.arity) >>= fun _ =>
    tick >>= fun _ => accumulator >>= fun r => finishWith [r] from rfl, retires_bind]
  simp only [latchAlu_eq_ok_iff h]
  constructor
  · rintro ⟨_, _, ⟨w, operands, r, hw, hv, rfl⟩, hr⟩
    exact ⟨w, operands, r, hw, hv, (hrest hw hv).1 hr⟩
  · rintro ⟨w, operands, r, hw, hv, rfl⟩
    exact ⟨(), _, ⟨w, operands, r, hw, hv, rfl⟩, (hrest hw hv).2 rfl⟩

theorem retires_jump {i : Instruction} :
    Retires (jump i) m v ↔
      ∃ n, i.argument = some (.number n) ∧ 0 ≤ n.toInt ∧
        v = m.view.goto m.view.words n.toInt.toNat := by
  simp only [Retires, jump_eq_ok_iff, i.target_eq_ok_iff]
  constructor
  · rintro ⟨_, ⟨_, ⟨n, harg, hn, rfl⟩, rfl⟩, rfl⟩
    exact ⟨n, harg, hn, rfl⟩
  · rintro ⟨n, harg, hn, rfl⟩
    exact ⟨_, ⟨_, ⟨n, harg, hn, rfl⟩, rfl⟩, rfl⟩

theorem retires_jumpIfNotTrue (h : m.datapath.Fits) {i : Instruction} :
    Retires (jumpIfNotTrue i) m v ↔
      ∃ w b, m.view.words = w ++ [b] ∧
        ((b = Word.yes ∧ v = m.view.next w) ∨
          (b ≠ Word.yes ∧ ∃ n, i.argument = some (.number n) ∧ 0 ≤ n.toInt ∧
            v = m.view.goto w n.toInt.toNat)) := by
  -- Either way the instruction ends with the last word gone.
  have hrest {w : List Word} {b : Word} (hw : m.datapath.words = w ++ [b]) :
      Retires (if decide (b = Word.yes) then finishWith [] else jump i)
        { m with datapath :=
          (m.datapath.accumulated (if b = Word.yes then Word.no else Word.yes)).popped 1 } v ↔
      (b = Word.yes ∧ v = m.view.next w) ∨
        (b ≠ Word.yes ∧ ∃ n, i.argument = some (.number n) ∧ 0 ≤ n.toInt ∧
          v = m.view.goto w n.toInt.toNat) := by
    have hwords := (h.accumulated (if b = Word.yes then Word.no else Word.yes)).words_popped hw
    have hlt := h.length_lt hw
    rw [List.length_append] at hlt
    by_cases hb : b = Word.yes
    · rw [if_pos (by simpa using hb), retires_finishWith ((h.accumulated _).popped 1),
        show ((m.datapath.accumulated _).popped 1).words = w from hwords, List.append_nil]
      constructor
      · rintro ⟨-, rfl⟩
        exact .inl ⟨hb, rfl⟩
      · rintro (⟨-, rfl⟩ | ⟨hne, -⟩)
        · exact ⟨Nat.lt_of_le_of_lt (Nat.add_le_add_left (Nat.zero_le _) _) hlt, rfl⟩
        · exact absurd hb hne
    · rw [if_neg (by simpa using hb), retires_jump]
      rw [show m.view.goto w = m.view.goto _ from congrArg m.view.goto hwords.symm]
      constructor
      · rintro ⟨n, harg, hn, rfl⟩
        exact .inr ⟨hb, n, harg, hn, rfl⟩
      · rintro (⟨hyes, -⟩ | ⟨-, n, harg, hn, rfl⟩)
        · exact absurd hyes hb
        · exact ⟨n, harg, hn, rfl⟩
  rw [show jumpIfNotTrue i = datapath Datapath.popTruth >>= fun t =>
    if t then finishWith [] else jump i from rfl, retires_bind]
  simp only [datapath_eq_ok_iff, h.popTruth_eq_ok_iff]
  constructor
  · rintro ⟨_, _, ⟨_, ⟨w, b, hw, rfl, rfl⟩, rfl⟩, hr⟩
    exact ⟨w, b, hw, (hrest hw).1 hr⟩
  · rintro ⟨w, b, hw, hv⟩
    exact ⟨_, _, ⟨_, ⟨w, b, hw, rfl, rfl⟩, rfl⟩, (hrest hw).2 hv⟩

theorem retires_readDirect (hm : m.Invariant program config) :
    Retires readDirect m v ↔
      ∃ (w : List Word) (a : Word), m.view.words = w ++ [a] ∧
        ((a.toInt = 0 ∧ ∃ c rest, m.view.input = c :: rest ∧
            v = (m.view.consume rest).next (w ++ [Word.ofChar c])) ∨
          (2 ≤ a.toInt ∧ a.toInt < m.view.start ∧
            v = m.view.next (w ++ [m.view.data a.toInt]))) := by
  have h := hm.fits
  -- The word that is read takes the place of its address.
  have hrest {w : List Word} {a x : Word} (hw : m.datapath.words = w ++ [a]) (mem : Memory) :
      Retires (finishWith [x]) (m.holding mem (m.datapath.popped 1) (m.ticks + 1)) v ↔
        v = (m.holding mem m.datapath m.ticks).view.next (w ++ [x]) := by
    have hlt := h.length_lt hw
    rw [List.length_append] at hlt
    rw [retires_finish (h.popped 1) rfl (h.words_popped hw)]
    exact and_iff_right hlt
  -- Latched before the address is dropped, read after it.
  have hload {w : List Word} {a : Word} (hw : m.datapath.words = w ++ [a]) :
      (0 ≤ a.toInt ∧ a.toInt ≤ m.memory.size ∧
        Retires (adjustHead (-1) >>= fun _ => tick >>= fun _ =>
          Microcode.read >>= fun x => finishWith [x])
          (m.holding (m.memory.addressed a.toInt.toNat) m.datapath m.ticks) v) ↔
      ((a.toInt = 0 ∧ ∃ c rest, m.view.input = c :: rest ∧
            v = (m.view.consume rest).next (w ++ [Word.ofChar c])) ∨
          (2 ≤ a.toInt ∧ a.toInt < m.view.start ∧
            v = m.view.next (w ++ [m.view.data a.toInt]))) := by
    rw [retires_dropOne h hw, retires_tick, retires_load hm.memory]
    constructor
    · rintro (⟨h0, c, rest, hin, hr⟩ | ⟨hport, hlt, hr⟩)
      · rw [hrest hw, Machine.view_consumed] at hr
        exact .inl ⟨h0, c, rest, hin, hr⟩
      · rw [hrest hw] at hr
        exact .inr ⟨hport, hlt, hr⟩
    · rintro (⟨h0, c, rest, hin, rfl⟩ | ⟨hport, hlt, rfl⟩)
      · refine .inl ⟨h0, c, rest, hin, ?_⟩
        rw [hrest hw, Machine.view_consumed]
        rfl
      · exact .inr ⟨hport, hlt, (hrest hw _).2 rfl⟩
  show Retires (latchAddress 0 >>= fun _ => adjustHead (-1) >>= fun _ => tick >>= fun _ =>
    Microcode.read >>= fun x => finishWith [x]) (m.holding m.memory m.datapath m.ticks) v ↔ _
  rw [retires_latchAddress]
  simp only [h.top_zero_eq_ok_iff]
  constructor
  · rintro ⟨a, ⟨w, hw⟩, hr⟩
    exact ⟨w, a, hw, (hload hw).1 hr⟩
  · rintro ⟨w, a, hw, hr⟩
    exact ⟨a, ⟨w, hw⟩, (hload hw).2 hr⟩

theorem retires_writeDirect (hm : m.Invariant program config) :
    Retires writeDirect m v ↔
      ∃ (w : List Word) (x a : Word), m.view.words = w ++ [x, a] ∧
        ((a.toInt = 1 ∧ v = (m.view.emit x).next w) ∨
          (2 ≤ a.toInt ∧ a.toInt < m.view.start ∧ v = (m.view.store a.toInt x).next w)) := by
  have h := hm.fits
  have hstart := hm.memory.start_le
  -- Once the word is stored, it and its address are dropped.
  have hrest {w : List Word} {x a : Word} (hw : m.datapath.words = w ++ [x, a]) (mem : Memory) :
      Retires (adjustHead (-2) >>= fun _ => finishWith []) (m.holding mem m.datapath (m.ticks + 1))
        v ↔ v = (m.holding mem m.datapath m.ticks).view.next w := by
    have hlt := h.length_lt hw
    rw [List.length_append] at hlt
    rw [retires_dropTwo h hw, retires_finish (h.popped 2) rfl (h.words_popped hw), List.append_nil]
    exact and_iff_right (Nat.lt_of_le_of_lt (Nat.add_le_add_left (Nat.zero_le _) _) hlt)
  have hstore {w : List Word} {x a : Word} (hw : m.datapath.words = w ++ [x, a]) :
      (0 ≤ a.toInt ∧ a.toInt ≤ m.memory.size ∧
        Retires (Microcode.write x >>= fun _ => adjustHead (-2) >>= fun _ => finishWith [])
          (m.holding (m.memory.addressed a.toInt.toNat) m.datapath (m.ticks + 1)) v) ↔
      ((a.toInt = 1 ∧ v = (m.view.emit x).next w) ∨
        (2 ≤ a.toInt ∧ a.toInt < m.view.start ∧ v = (m.view.store a.toInt x).next w)) := by
    rw [retires_store hm.memory, hrest hw, hrest hw, Machine.view_emitted]
    refine or_congr Iff.rfl (and_congr_right fun hport => and_congr_right fun hlt => ?_)
    rw [Machine.view_stored _ _ _ _ (by omega) (by show _ < m.memory.size; omega),
      Int.toNat_of_nonneg (by omega)]
    exact Iff.rfl
  show Retires (latchAddress 0 >>= fun _ => tick >>= fun _ => top 1 >>= fun x =>
    Microcode.write x >>= fun _ => adjustHead (-2) >>= fun _ => finishWith [])
    (m.holding m.memory m.datapath m.ticks) v ↔ _
  rw [retires_latchAddress]
  simp only [retires_tick, top, retires_inspect]
  constructor
  · rintro ⟨a, ha, h0, hsize, x, hx, hr⟩
    obtain ⟨w, a', hw⟩ := h.top_one_eq_ok_iff.1 hx
    obtain rfl := Except.ok.inj ((h.top_zero_of_two hw).symm.trans ha)
    exact ⟨w, x, a', hw, (hstore hw).1 ⟨h0, hsize, hr⟩⟩
  · rintro ⟨w, x, a, hw, hr⟩
    obtain ⟨h0, hsize, hr⟩ := (hstore hw).2 hr
    exact ⟨a, h.top_zero_of_two hw, h0, hsize, x, h.top_one_eq_ok_iff.2 ⟨w, a, hw⟩, hr⟩

end Microcode

/-! ## The table -/

theorem effect_arithmetic_iff {argument : Option Argument} {v v' : View} {opcode : Opcode}
    {op : AluOp} (hop : AluOp.ofOpcode? opcode = some op) :
    Effect argument v opcode v' ↔
      ∃ w operands r, v.words = w ++ operands ∧ op.value? operands = some r ∧
        v' = v.next (w ++ [r]) := by
  constructor
  · intro heff
    cases heff with
    | arithmetic hop' hw hv =>
      obtain rfl := Option.some.inj (hop.symm.trans hop')
      exact ⟨_, _, _, hw, hv, rfl⟩
    | _ => cases hop
  · rintro ⟨w, operands, r, hw, hv, rfl⟩
    exact .arithmetic hop hw hv

theorem not_effect {argument : Option Argument} {v v' : View} {opcode : Opcode}
    (hop : opcode ∈ [Opcode.halt, .minus, .div, .print]) : ¬ Effect argument v opcode v' := by
  intro heff
  cases heff with
  | arithmetic halu =>
    simp only [List.mem_cons, List.not_mem_nil, or_false] at hop
    rcases hop with rfl | rfl | rfl | rfl
    all_goals cases halu
  | _ => simp at hop

theorem execute_retires_iff {program : Program} {config : Machine.Config} {m : Machine}
    (hm : m.Invariant program config) {i : Instruction} {v : View}
    (hop : i.opcode ≠ .readIndirect ∧ i.opcode ≠ .writeIndirect) :
    Retires (Microcode.execute i) m v ↔ Effect i.argument m.view i.opcode v := by
  have h := hm.fits
  obtain ⟨opcode, argument, term⟩ := i
  cases opcode with
  | push =>
    refine (retires_pushLiteral h).trans ⟨?_, ?_⟩
    · rintro ⟨arg, harg, hroom, rfl⟩
      exact .push harg hroom
    · intro heff
      cases heff with
      | push harg hroom => exact ⟨_, harg, hroom, rfl⟩
      | arithmetic hop => cases hop
  | dup =>
    refine (retires_duplicate h).trans ⟨?_, ?_⟩
    · rintro ⟨w, a, hw, hroom, rfl⟩
      exact .dup hw hroom
    · intro heff
      cases heff with
      | dup hw hroom => exact ⟨_, _, hw, hroom, rfl⟩
      | arithmetic hop => cases hop
  | dupUnder =>
    refine (retires_duplicateUnder h).trans ⟨?_, ?_⟩
    · rintro ⟨w, a, b, hw, hroom, rfl⟩
      exact .dupUnder hw hroom
    · intro heff
      cases heff with
      | dupUnder hw hroom => exact ⟨_, _, _, hw, hroom, rfl⟩
      | arithmetic hop => cases hop
  | swap =>
    refine (retires_swap h).trans ⟨?_, ?_⟩
    · rintro ⟨w, a, b, hw, rfl⟩
      exact .swap hw
    · intro heff
      cases heff with
      | swap hw => exact ⟨_, _, _, hw, rfl⟩
      | arithmetic hop => cases hop
  | rot =>
    refine (retires_rotate h).trans ⟨?_, ?_⟩
    · rintro ⟨w, a, b, c, hw, rfl⟩
      exact .rot hw
    · intro heff
      cases heff with
      | rot hw => exact ⟨_, _, _, _, hw, rfl⟩
      | arithmetic hop => cases hop
  | drop =>
    refine (retires_dropTop h).trans ⟨?_, ?_⟩
    · rintro ⟨w, a, hw, rfl⟩
      exact .drop hw
    · intro heff
      cases heff with
      | drop hw => exact ⟨_, _, hw, rfl⟩
      | arithmetic hop => cases hop
  | begin =>
    refine (retires_noOperation h).trans ⟨?_, ?_⟩
    · rintro rfl
      exact .begin
    · intro heff
      cases heff with
      | begin => exact rfl
      | arithmetic hop => cases hop
  | nop =>
    refine (retires_noOperation h).trans ⟨?_, ?_⟩
    · rintro rfl
      exact .nop
    · intro heff
      cases heff with
      | nop => exact rfl
      | arithmetic hop => cases hop
  | readDirect =>
    refine (retires_readDirect hm).trans ⟨?_, ?_⟩
    · rintro ⟨w, a, hw, ⟨h0, c, rest, hin, rfl⟩ | ⟨hport, hlt, rfl⟩⟩
      · exact .readInput hw h0 hin
      · exact .readData hw hport hlt
    · intro heff
      cases heff with
      | readInput hw h0 hin => exact ⟨_, _, hw, .inl ⟨h0, _, _, hin, rfl⟩⟩
      | readData hw hport hlt => exact ⟨_, _, hw, .inr ⟨hport, hlt, rfl⟩⟩
      | arithmetic hop => cases hop
  | writeDirect =>
    refine (retires_writeDirect hm).trans ⟨?_, ?_⟩
    · rintro ⟨w, x, a, hw, ⟨h1, rfl⟩ | ⟨hport, hlt, rfl⟩⟩
      · exact .writeOutput hw h1
      · exact .writeData hw hport hlt
    · intro heff
      cases heff with
      | writeOutput hw h1 => exact ⟨_, _, _, hw, .inl ⟨h1, rfl⟩⟩
      | writeData hw hport hlt => exact ⟨_, _, _, hw, .inr ⟨hport, hlt, rfl⟩⟩
      | arithmetic hop => cases hop
  | jmp =>
    refine retires_jump.trans ⟨?_, ?_⟩
    · rintro ⟨n, harg, hn, rfl⟩
      exact .jump harg hn
    · intro heff
      cases heff with
      | jump harg hn => exact ⟨_, harg, hn, rfl⟩
      | arithmetic hop => cases hop
  | jnt =>
    refine (retires_jumpIfNotTrue h).trans ⟨?_, ?_⟩
    · rintro ⟨w, b, hw, ⟨hb, rfl⟩ | ⟨hb, n, harg, hn, rfl⟩⟩
      · exact .fallThrough hw hb
      · exact .branch hw hb harg hn
    · intro heff
      cases heff with
      | fallThrough hw hb => exact ⟨_, _, hw, .inl ⟨hb, rfl⟩⟩
      | branch hw hb harg hn => exact ⟨_, _, hw, .inr ⟨hb, _, harg, hn, rfl⟩⟩
      | arithmetic hop => cases hop
  | mod => exact (retires_arithmetic h).trans (effect_arithmetic_iff rfl).symm
  | plus => exact (retires_arithmetic h).trans (effect_arithmetic_iff rfl).symm
  | mult => exact (retires_arithmetic h).trans (effect_arithmetic_iff rfl).symm
  | pow => exact (retires_arithmetic h).trans (effect_arithmetic_iff rfl).symm
  | lt => exact (retires_arithmetic h).trans (effect_arithmetic_iff rfl).symm
  | neg => exact (retires_arithmetic h).trans (effect_arithmetic_iff rfl).symm
  | invert => exact (retires_arithmetic h).trans (effect_arithmetic_iff rfl).symm
  | halt => exact iff_of_false not_retires_throw (not_effect (by simp))
  | minus => exact iff_of_false not_retires_throw (not_effect (by simp))
  | div => exact iff_of_false not_retires_throw (not_effect (by simp))
  | print => exact iff_of_false not_retires_throw (not_effect (by simp))
  | readIndirect => exact absurd rfl hop.1
  | writeIndirect => exact absurd rfl hop.2

/-- On every reachable machine, an instruction that does not address memory
indirectly retires exactly when its row of the table applies, and then the machine
shows what the row says. -/
theorem step_retires_iff_effect {program : Program} {input : List Char}
    {config : Machine.Config} {m : Machine} (hm : m.Reachable program input config)
    {i : Instruction} (hi : m.memory.fetch m.pc = .ok i)
    (hop : i.opcode ≠ .readIndirect ∧ i.opcode ≠ .writeIndirect) (opcode : Opcode) (v : View) :
    (∃ m', Machine.step m = .ok opcode m' ∧ m'.view = v) ↔
      opcode = i.opcode ∧ Effect i.argument m.view i.opcode v := by
  have hexec := execute_retires_iff (v := v) (hm.invariant.executing (some i)) hop
  constructor
  · rintro ⟨m', hstep, hv⟩
    obtain ⟨j, hj, rfl, hm'⟩ := Machine.step_eq_ok_iff.1 hstep
    obtain rfl := Except.ok.inj (hi.symm.trans hj)
    exact ⟨rfl, hexec.1 ⟨m', hm', hv⟩⟩
  · rintro ⟨rfl, heff⟩
    obtain ⟨m', hm', hv⟩ := hexec.2 heff
    exact ⟨m', Machine.step_eq_ok_iff.2 ⟨i, hi, rfl, hm'⟩, hv⟩

/-- A duplicate, in a machine that has pushed one word. -/
theorem step_retires_iff_effect_dup :
    ∃ m : Machine,
      m.Reachable
        ⟨none, [⟨.push, some (.number Word.yes), none⟩, ⟨.dup, none, none⟩]⟩ [] ⟨131, 3, 5⟩ ∧
      m.view.words = [Word.yes] ∧
      ∃ m', Machine.step m = .ok .dup m' ∧ m'.view = m.view.next [Word.yes, Word.yes] := by
  have hm : Machine.Reachable
      ⟨none, [⟨.push, some (.number Word.yes), none⟩, ⟨.dup, none, none⟩]⟩ [] ⟨131, 3, 5⟩ _ :=
    ⟨_, .next (.start rfl), rfl⟩
  refine ⟨_, hm, by decide +kernel, ?_⟩
  exact (step_retires_iff_effect hm (i := ⟨.dup, none, none⟩)
    (hm.invariant.memory.fetch_eq_ok_iff.2 (by decide +kernel)) (by decide) .dup _).2
      ⟨rfl, .dup (w := []) (by decide +kernel) (by decide +kernel)⟩

end Microstack
