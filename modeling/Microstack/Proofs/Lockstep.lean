/-
# `Microstack.Proofs.Lockstep` — two machines, one microcode

The same microcode on two machines that are related stays in lockstep: it completes
on both with the same result or fails on both with the same trap, and leaves them
related.  There may be traps about which nothing is promised.

As with `Transfers`, a relation is taken through all opcodes at once.  `Coupled R F`
lists what it needs of the single transfers, and `Coupled.lockstep` concludes it of
every sequence of them.

    memory       `Memory.Coupled`             the address is the same, and what it stands for
    microcode    `Coupled.lockstep`           every transfer keeps the relation
    a step       `Lockstep.step`              both machines fetch the same instruction
    a run        `Run.finishWithin_eq_or`     related machines look the same to a run

A run that was kept in lockstep has the result of the other one, or came to a trap about
which nothing is promised.

The relation used here is `Machine.Alike`: the machines may have different program
texts, and agree otherwise.  Machines that are alike remain so for as long as the
instructions that they fetch have the same opcode and the same argument, and then
the runs have the same result (`simulate_congr`).  Terms do not come into it, and
neither do instructions that are never fetched.
-/
import Microstack.Proofs.Machine

namespace Microstack

/-! ## Lockstep -/

/-- The results are the same and the states related, unless the first result is a
trap in `F`. -/
inductive Matching {ε σ α : Type} (R : σ → σ → Prop) (F : ε → Prop) :
    EStateM.Result ε σ α → EStateM.Result ε σ α → Prop
  | ok {a : α} {t t' : σ} : R t t' → Matching R F (.ok a t) (.ok a t')
  | error {e : ε} {t t' : σ} : R t t' → Matching R F (.error e t) (.error e t')
  | excused {e : ε} {t : σ} {r : EStateM.Result ε σ α} : F e → Matching R F (.error e t) r

/-- From related states the action has matching results. -/
def Lockstep {ε σ α : Type} (R : σ → σ → Prop) (F : ε → Prop) (c : EStateM ε σ α) : Prop :=
  ∀ s s', R s s' → Matching R F (c s) (c s')

theorem Matching.mono {ε σ α : Type} {R S : σ → σ → Prop} {F : ε → Prop}
    {x x' : EStateM.Result ε σ α} (h : Matching R F x x') (hRS : ∀ s s', R s s' → S s s') :
    Matching S F x x' := by
  cases h with
  | ok ht => exact .ok (hRS _ _ ht)
  | error ht => exact .error (hRS _ _ ht)
  | excused he => exact .excused he

/-- What is matched with a stronger relation may go on with a weaker one. -/
theorem Matching.bind {ε σ α β : Type} {R S : σ → σ → Prop} {F : ε → Prop} {s s' : σ}
    {c : EStateM ε σ α} {f : α → EStateM ε σ β} (hc : Matching R F (c s) (c s'))
    (hf : ∀ a t t', R t t' → Matching S F (f a t) (f a t')) (hRS : ∀ t t', R t t' → S t t') :
    Matching S F ((c >>= f) s) ((c >>= f) s') := by
  show Matching S F (EStateM.bind c f s) (EStateM.bind c f s')
  unfold EStateM.bind
  generalize c s = x at hc ⊢
  generalize c s' = x' at hc ⊢
  cases hc with
  | ok ht => exact hf _ _ _ ht
  | error ht => exact .error (hRS _ _ ht)
  | excused he => exact .excused he

theorem Matching.leaves {ε σ α : Type} {R : σ → σ → Prop} {s s' : σ} {c : EStateM ε σ α}
    (h : Matching R (fun _ => False) (c s) (c s')) : R (leaves c s) (leaves c s') := by
  unfold Microstack.leaves
  generalize c s = x at h ⊢
  generalize c s' = x' at h ⊢
  cases h with
  | ok ht => exact ht
  | error ht => exact ht
  | excused he => exact he.elim

namespace Lockstep

variable {ε σ α β : Type} {R : σ → σ → Prop} {F : ε → Prop}

theorem bind {c : EStateM ε σ α} {f : α → EStateM ε σ β} (hc : Lockstep R F c)
    (hf : ∀ a, Lockstep R F (f a)) : Lockstep R F (c >>= f) :=
  fun s s' hs => (hc s s' hs).bind hf fun _ _ ht => ht

theorem throw (e : ε) : Lockstep R F (throw e : EStateM ε σ α) := fun _ _ hs => .error hs

theorem modify {f : σ → σ} (hf : ∀ s s', R s s' → R (f s) (f s')) :
    Lockstep R F (modify f : EStateM ε σ PUnit) := fun s s' hs => .ok (hf s s' hs)

theorem of_eq (c : EStateM ε σ α) : Lockstep (fun s s' => s' = s) F c := by
  rintro _ s rfl
  cases c s with
  | ok a t => exact .ok rfl
  | error e t => exact .error rfl

end Lockstep

/-! Operations of a part of the machine, from a relation of that part. -/

namespace Lockstep

variable {α : Type} {R : Machine → Machine → Prop} {F : Trap → Prop}

theorem datapath {D : Datapath → Datapath → Prop} {act : Datapath.Action α}
    (hact : Lockstep D (fun f => F (.fault f)) act)
    (hD : ∀ m m', R m m' → D m.datapath m'.datapath)
    (hR : ∀ m m' d d', R m m' → D d d' → R { m with datapath := d } { m' with datapath := d' }) :
    Lockstep R F (Microcode.datapath act) := by
  intro m m' h
  rw [Microcode.datapath_apply, Microcode.datapath_apply]
  have hmatch := hact _ _ (hD m m' h)
  generalize act m.datapath = x at hmatch ⊢
  generalize act m'.datapath = x' at hmatch ⊢
  cases hmatch with
  | ok hd => exact .ok (hR m m' _ _ h hd)
  | error hd => exact .error (hR m m' _ _ h hd)
  | excused he => exact .excused he

theorem memory {M : Memory → Memory → Prop} {act : Memory.Action α} (hact : Lockstep M F act)
    (hM : ∀ m m', R m m' → M m.memory m'.memory)
    (hR : ∀ m m' d d', R m m' → M d d' → R { m with memory := d } { m' with memory := d' }) :
    Lockstep R F (Microcode.memory act) := by
  intro m m' h
  rw [Microcode.memory_apply, Microcode.memory_apply]
  have hmatch := hact _ _ (hM m m' h)
  generalize act m.memory = x at hmatch ⊢
  generalize act m'.memory = x' at hmatch ⊢
  cases hmatch with
  | ok hd => exact .ok (hR m m' _ _ h hd)
  | error hd => exact .error (hR m m' _ _ h hd)
  | excused he => exact .excused he

theorem inspect {look : Machine → Except Fault α}
    (hlook : ∀ m m', R m m' → look m' = look m) : Lockstep R F (Microcode.inspect look) := by
  intro m m' h
  simp only [Microcode.inspect, hlook m m' h]
  cases look m with
  | ok a => exact .ok h
  | error f => exact .error h

end Lockstep

open Microcode in
/-- What a relation needs of the parts of microcode. -/
structure Coupled (R : Machine → Machine → Prop) (F : Trap → Prop) : Prop where
  transfer : ∀ {α : Type} {c : Microcode α}, Transfer c → Lockstep R F c
  tick : ∀ m m', R m m' → R { m with ticks := m.ticks + 1 } { m' with ticks := m'.ticks + 1 }
  advance : ∀ m m', R m m' → R { m with pc := m.pc + 1 } { m' with pc := m'.pc + 1 }
  jumpTo : ∀ m m' pc, R m m' → R { m with pc := pc } { m' with pc := pc }

theorem Coupled.lockstep {R : Machine → Machine → Prop} {F : Trap → Prop} (h : Coupled R F)
    {i : Instruction} {spent left : Nat} {l : Microcode.Latches} {c : Microcode Unit}
    (hc : Microcode.Sequence i spent left l c) : Lockstep R F c := by
  have htick : Lockstep R F Microcode.tick := Lockstep.modify h.tick
  induction hc with
  | finish => exact (Lockstep.modify h.advance).bind fun _ => htick
  | jump _ =>
    exact (h.transfer (.operand i.target)).bind fun pc =>
      (Lockstep.modify fun m m' => h.jumpTo m m' pc).bind fun _ => htick
  | halt => exact Lockstep.throw _
  | unsupported _ => exact Lockstep.throw _
  | tick _ ih => exact htick.bind fun _ => ih
  | transfer hpart _ ih => exact (h.transfer hpart.transfer).bind ih

/-! ## Reading and writing -/

namespace Memory

/-- What a relation of memories needs for reading and writing to stay in lockstep. -/
structure Coupled (R : Memory → Memory → Prop) (F : Trap → Prop) : Prop where
  loaded : ∀ {m m'}, R m m' → (∃ n P, m.Loaded n P) ∧ ∃ n P, m'.Loaded n P
  address : ∀ {m m'}, R m m' → m'.address = m.address
  start : ∀ {m m'}, R m m' → m.programStart ≤ m'.programStart
  data : ∀ {m m'} a, R m m' → 2 ≤ a → a < m.programStart → m'.peek? a = m.peek? a
  input : ∀ {m m'}, R m m' → m'.input = m.input
  text : ∀ {m m'}, R m m' → m.programStart ≤ m.address →
    (∀ f, F (.fault f)) ∨ m'.programStart ≤ m'.address ∧ m'.dataIndex = m.dataIndex
  consumed : ∀ {m m'} c rest, R m m' → R (m.consumed c rest) (m'.consumed c rest)
  emitted : ∀ {m m'} w, R m m' → R (m.emitted w) (m'.emitted w)
  stored : ∀ {m m'} {a} w, R m m' → a < m.programStart → R (m.stored a w) (m'.stored a w)

namespace Coupled

variable {R : Memory → Memory → Prop} {F : Trap → Prop}

theorem read (hR : Coupled R F) : Lockstep R F read := by
  intro m m' h
  have haddress := hR.address h
  have hstart := hR.start h
  obtain ⟨⟨n, P, hm⟩, n', P', hm'⟩ := hR.loaded h
  rcases m.region with h0 | h1 | ⟨hport, hlt⟩ | ⟨hport, htext⟩
  · cases hin : m.input with
    | nil =>
      rw [read_input_empty h0 hin, read_input_empty (by omega) ((hR.input h).trans hin)]
      exact .error h
    | cons c rest =>
      rw [read_input h0 hin, read_input (by omega) ((hR.input h).trans hin)]
      exact .ok (hR.consumed c rest h)
  · rw [read_output h1, read_output (by omega)]
    exact .error h
  · obtain ⟨w, hw⟩ := hm.exists_peek? hlt
    rw [hm.read_data hport hlt hw, hm'.read_data (by omega) (by omega)
      (by rw [haddress, hR.data _ h hport hlt, hw])]
    exact .ok h
  · have hf := dataIndex_text hport htext
    rw [read_text hport htext hf]
    rcases hR.text h htext with hF | ⟨htext', hindex⟩
    · exact .excused (hF _)
    · rw [read_text (by omega) htext' (hindex.trans hf)]
      exact .error h

theorem write (hR : Coupled R F) (w : Word) : Lockstep R F (write w) := by
  intro m m' h
  have haddress := hR.address h
  have hstart := hR.start h
  obtain ⟨⟨n, P, hm⟩, n', P', hm'⟩ := hR.loaded h
  rcases m.region with h0 | h1 | ⟨hport, hlt⟩ | ⟨hport, htext⟩
  · rw [write_input h0, write_input (by omega)]
    exact .error h
  · rw [write_output h1, write_output (by omega)]
    exact .ok (hR.emitted w h)
  · rw [hm.write_data hport hlt, hm'.write_data (by omega) (by omega), haddress]
    exact .ok (hR.stored w h hlt)
  · have hf := dataIndex_text hport htext
    rw [write_text hport htext hf]
    rcases hR.text h htext with hF | ⟨htext', hindex⟩
    · exact .excused (hF _)
    · rw [write_text (by omega) htext' (hindex.trans hf)]
      exact .error h

end Coupled

end Memory

/-! ## Machines that differ in their program text -/

namespace Memory

/-- The memories hold different texts of the same length, and agree otherwise. -/
structure Alike (n : Nat) (P Q : List Instruction) (mem mem' : Memory) : Prop where
  left : mem.Loaded n P
  right : mem'.Loaded n Q
  address : mem'.address = mem.address
  start : mem'.programStart = mem.programStart
  peek : ∀ a, mem'.peek? a = mem.peek? a
  input : mem'.input = mem.input
  output : mem'.output = mem.output

namespace Alike

variable {n : Nat} {P Q : List Instruction} {mem mem' : Memory}

theorem size (h : Alike n P Q mem mem') : mem'.size = mem.size := by
  rw [h.right.size_eq, h.left.size_eq]

theorem stored (h : Alike n P Q mem mem') {a : Nat} (ha : a < mem.programStart) (w : Word) :
    Alike n P Q (mem.stored a w) (mem'.stored a w) where
  left := h.left.stored ha w
  right := h.right.stored (by rw [h.start]; exact ha) w
  address := h.address
  start := h.start
  peek b := by
    have hle := h.left.start_le
    have hsize := h.size
    by_cases hb : b = a
    · subst hb
      rw [peek?_stored_self (by omega), peek?_stored_self (by omega)]
    · rw [peek?_stored_ne hb, peek?_stored_ne hb, h.peek]
  input := h.input
  output := h.output

theorem dataIndex (h : Alike n P Q mem mem') : mem'.dataIndex = mem.dataIndex := by
  simp only [Memory.dataIndex, latched, h.size, h.address, h.start]

theorem lockstep_latch (a : Word) (F : Trap → Prop) : Lockstep (Alike n P Q) F (latch a) := by
  intro mem mem' h
  have hsize := h.size
  by_cases hin : 0 ≤ a.toInt ∧ a.toInt ≤ mem.size
  · simp only [latch, hsize, if_pos hin]
    exact .ok ⟨h.left.addressed (by omega), h.right.addressed (by omega), rfl, h.start, h.peek,
      h.input, h.output⟩
  · simp only [latch, hsize, if_neg hin]
    exact .error h

theorem coupled (n : Nat) (P Q : List Instruction) (F : Trap → Prop) :
    Coupled (Alike n P Q) F where
  loaded h := ⟨⟨n, P, h.left⟩, n, Q, h.right⟩
  address h := h.address
  start h := Nat.le_of_eq h.start.symm
  data a h _ _ := h.peek a
  input h := h.input
  text h htext := .inr ⟨by rw [h.start, h.address]; exact htext, h.dataIndex⟩
  consumed c rest h :=
    have hs := h.stored (Nat.lt_trans (by decide) h.left.two_lt) (Word.ofChar c)
    ⟨h.left.consumed c rest, h.right.consumed c rest, hs.address, hs.start, hs.peek, rfl,
      hs.output⟩
  emitted w h :=
    have hs := h.stored (Nat.lt_trans (by decide) h.left.two_lt) w
    ⟨h.left.emitted w, h.right.emitted w, hs.address, hs.start, hs.peek, hs.input, by
      simp only [emitted, h.output]⟩
  stored w h ha := h.stored ha w

end Alike

end Memory

namespace Machine

/-- The machines differ in their program texts, perhaps also in the term of the
instruction being executed, and agree otherwise. -/
structure Alike (n : Nat) (P Q : List Instruction) (m m' : Machine) : Prop where
  memory : m.memory.Alike n P Q m'.memory
  datapath : m'.datapath = m.datapath
  pc : m'.pc = m.pc
  ticks : m'.ticks = m.ticks
  current : m'.current.map (fun i => (i.opcode, i.argument)) =
    m.current.map fun i => (i.opcode, i.argument)

namespace Alike

variable {n : Nat} {P Q : List Instruction} {F : Trap → Prop}

theorem lockstep_datapath {α : Type} (act : Datapath.Action α) :
    Lockstep (Alike n P Q) F (Microcode.datapath act) :=
  .datapath (.of_eq act) (fun _ _ h => h.datapath) fun _ _ _ _ h hd =>
    ⟨h.memory, hd, h.pc, h.ticks, h.current⟩

theorem lockstep_memory {α : Type} {act : Memory.Action α}
    (hact : Lockstep (Memory.Alike n P Q) F act) :
    Lockstep (Alike n P Q) F (Microcode.memory act) :=
  .memory hact (fun _ _ h => h.memory) fun _ _ _ _ h hmem =>
    ⟨hmem, h.datapath, h.pc, h.ticks, h.current⟩

theorem lockstep_top (offset : Nat) : Lockstep (Alike n P Q) F (Microcode.top offset) :=
  .inspect fun m m' h => by rw [h.datapath]

theorem coupled (n : Nat) (P Q : List Instruction) (F : Trap → Prop) :
    Coupled (Alike n P Q) F where
  transfer ht := by
    cases ht with
    | adjustHead _ => exact lockstep_datapath _
    | push _ => exact lockstep_datapath _
    | latchAlu _ => exact lockstep_datapath _
    | popTruth => exact lockstep_datapath _
    | accumulator =>
      intro m m' h
      show Matching _ _ (.ok m.datapath.accumulator m) (.ok m'.datapath.accumulator m')
      rw [h.datapath]
      exact .ok h
    | top offset => exact lockstep_top offset
    | topIncremented _ => exact .inspect fun m m' h => by rw [h.datapath]
    | operand _ => exact .inspect fun _ _ _ => rfl
    | latchAddress offset =>
      exact (lockstep_top offset).bind fun a => lockstep_memory (Memory.Alike.lockstep_latch a F)
    | read => exact lockstep_memory (Memory.Alike.coupled n P Q F).read
    | write w => exact lockstep_memory ((Memory.Alike.coupled n P Q F).write w)
  tick m m' h := ⟨h.memory, h.datapath, h.pc, congrArg (· + 1) h.ticks, h.current⟩
  advance m m' h := ⟨h.memory, h.datapath, congrArg (· + 1) h.pc, h.ticks, h.current⟩
  jumpTo m m' pc h := ⟨h.memory, h.datapath, rfl, h.ticks, h.current⟩

end Alike

end Machine

/-! ## Steps -/

/-- Both are there or neither is, and then they differ at most in their terms. -/
theorem cases_of_map_eq {o o' : Option Instruction}
    (h : o'.map (fun i => (i.opcode, i.argument)) = o.map fun i => (i.opcode, i.argument)) :
    (o = none ∧ o' = none) ∨
      ∃ i j, o = some i ∧ o' = some j ∧ j.opcode = i.opcode ∧ j.argument = i.argument := by
  cases o with
  | none =>
    cases o' with
    | none => exact .inl ⟨rfl, rfl⟩
    | some j => cases h
  | some i =>
    cases o' with
    | none => cases h
    | some j =>
      obtain ⟨hopcode, hargument⟩ := Prod.mk.inj (Option.some.inj h)
      exact .inr ⟨i, j, rfl, rfl, hopcode, hargument⟩

theorem Microcode.execute_congr {i j : Instruction} (hopcode : j.opcode = i.opcode)
    (hargument : j.argument = i.argument) : execute j = execute i := by
  obtain ⟨op, arg, t⟩ := i
  obtain ⟨_, _, t'⟩ := j
  cases hopcode
  cases hargument
  rfl

/-- The instructions at an index differ at most in their terms. -/
def SameAt (P Q : List Instruction) (k : Nat) : Prop :=
  Q[k]?.map (fun i => (i.opcode, i.argument)) = P[k]?.map fun i => (i.opcode, i.argument)

theorem Machine.Alike.step {n : Nat} {P Q : List Instruction} {F : Trap → Prop} {m m' : Machine}
    (h : m.Alike n P Q m') (hlen : Q.length = P.length) (hsame : SameAt P Q m.pc) :
    Matching (Machine.Alike n P Q) F (Machine.step m) (Machine.step m') := by
  rw [Machine.step_apply, Machine.step_apply, h.memory.left.fetch_eq, h.memory.right.fetch_eq, h.pc]
  rcases cases_of_map_eq hsame with ⟨hi, hj⟩ | ⟨i, j, hi, hj, hopcode, hargument⟩
  · rw [hi, hj, hlen]
    exact .error ⟨h.memory, h.datapath, h.pc, h.ticks, rfl⟩
  · have halike : (m.executing (some i)).Alike n P Q (m'.executing (some j)) :=
      ⟨h.memory, h.datapath, h.pc, h.ticks, by simp [executing, hopcode, hargument]⟩
    have hexec := (Machine.Alike.coupled n P Q F).lockstep (Microcode.sequence_execute i) _ _ halike
    simp only [hi, hj, Microcode.execute_congr hopcode hargument, hopcode]
    generalize Microcode.execute i (m.executing (some i)) = r at hexec ⊢
    generalize Microcode.execute i (m'.executing (some j)) = r' at hexec ⊢
    cases hexec with
    | ok ht => exact .ok ht
    | error ht => exact .error ht
    | excused he => exact .excused he

/-- Machines that fetch the same instruction stay in lockstep, if the microcode of every
instruction keeps them so. -/
theorem Lockstep.step {R : Machine → Machine → Prop} {F : Trap → Prop}
    (hexec : ∀ i, Lockstep R F (Microcode.execute i))
    (hfetch : ∀ m m', R m m' → m'.memory.fetch m'.pc = m.memory.fetch m.pc)
    (hcurrent : ∀ m m' i, R m m' → R (m.executing i) (m'.executing i)) :
    Lockstep R F Machine.step := by
  intro m m' h
  rw [Machine.step_apply, Machine.step_apply, hfetch m m' h]
  cases m.memory.fetch m.pc with
  | error f => exact .error (hcurrent m m' none h)
  | ok i =>
    have hstep := hexec i _ _ (hcurrent m m' (some i) h)
    simp only
    generalize Microcode.execute i (m.executing (some i)) = x at hstep ⊢
    generalize Microcode.execute i (m'.executing (some i)) = x' at hstep ⊢
    cases hstep with
    | ok ht => exact .ok ht
    | error ht => exact .error ht
    | excused he => exact .excused he

/-! ## Runs

A run looks at its machine for the program counter, the ticks, the output and the instruction
being executed, without its term.  Machines may be related in any way that keeps these. -/

/-- The machines look the same to a run. -/
structure Machine.LooksLike (m m' : Machine) : Prop where
  pc : m'.pc = m.pc
  ticks : m'.ticks = m.ticks
  output : m'.memory.output = m.memory.output
  current : m'.current.map (fun i => (i.opcode, i.argument)) =
    m.current.map fun i => (i.opcode, i.argument)

namespace Machine.LooksLike

variable {m m' : Machine}

theorem charged_eq (h : m.LooksLike m') (spent : Tally) (before : Nat) :
    Run.charged spent before m' = Run.charged spent before m := by
  rw [Run.charged, Run.charged, h.ticks]
  rcases cases_of_map_eq h.current with ⟨hm, hm'⟩ | ⟨i, j, hm, hm', hopcode, -⟩
  · rw [hm, hm']
  · rw [hm, hm']
    simp only [hopcode]

theorem executionError_eq (h : m.LooksLike m') (cause : Fault) :
    ExecutionError.at m' cause = ExecutionError.at m cause := by
  simp only [ExecutionError.at, h.ticks, h.pc]
  rcases cases_of_map_eq h.current with ⟨hm, hm'⟩ | ⟨i, j, hm, hm', hopcode, hargument⟩
  · rw [hm, hm']
  · rw [hm, hm']
    simp only [Option.map_some, Option.getD_some, Instruction.text, hopcode, hargument]

end Machine.LooksLike

theorem Machine.Alike.looksLike {n : Nat} {P Q : List Instruction} {m m' : Machine}
    (h : m.Alike n P Q m') : m.LooksLike m' :=
  ⟨h.pc, h.ticks, h.memory.output, h.current⟩

namespace Run

variable {R : Machine → Machine → Prop} {F : Trap → Prop} {r r' : Run}

/-- The machines of the runs are related, and the tallies are the same. -/
structure Tied (R : Machine → Machine → Prop) (r r' : Run) : Prop where
  machine : R r.machine r'.machine
  limit : r'.limit = r.limit
  retired : r'.retired = r.retired
  counts : r'.counts = r.counts
  spent : r'.spent = r.spent

/-- The next step ends in one of these traps. -/
def StopsIn (F : Trap → Prop) (r : Run) : Prop :=
  r.retired < r.limit ∧ ∃ t m, F t ∧ Machine.step r.machine = .error t m

theorem Tied.report_eq (h : Tied R r r') (hm : r.machine.LooksLike r'.machine)
    (ending : Termination) : r'.report ending = r.report ending := by
  simp only [report, hm.output, hm.ticks, h.retired, h.counts, h.spent]

theorem Tied.charge (h : Tied R r r') (hr : r.machine.LooksLike r'.machine) {m m' : Machine}
    (hm : R m m') (hlooks : m.LooksLike m') : Tied R (r.charge m) (r'.charge m') :=
  ⟨hm, h.limit, h.retired, h.counts, by
    simp only [Run.charge, h.spent, hr.ticks, hlooks.charged_eq]⟩

/-- A step keeps runs tied whose machines it keeps in lockstep, unless it ends in a trap
about which nothing is promised. -/
theorem Tied.step (hlooks : ∀ m m', R m m' → m.LooksLike m') (h : Tied R r r')
    (hstep : Matching R F (Machine.step r.machine) (Machine.step r'.machine)) :
    r.StopsIn F ∨ Matching (Tied R) (fun _ => False) (Run.step r) (Run.step r') := by
  rw [step_apply, step_apply, h.limit, h.retired]
  by_cases hlimit : r.limit ≤ r.retired
  · rw [if_pos hlimit, if_pos hlimit]
    exact .inr (.ok h)
  · rw [if_neg hlimit, if_neg hlimit]
    have hr := hlooks _ _ h.machine
    generalize hx : Machine.step r.machine = x at hstep ⊢
    generalize Machine.step r'.machine = x' at hstep ⊢
    cases hstep with
    | excused he => exact .inl ⟨Nat.lt_of_not_le hlimit, _, _, he, hx⟩
    | ok hm =>
      have hcharge := h.charge hr hm (hlooks _ _ hm)
      exact .inr (.ok ⟨hcharge.machine, hcharge.limit, congrArg (· + 1) hcharge.retired,
        congrArg (Tally.add · _ 1) hcharge.counts, hcharge.spent⟩)
    | @error t _ _ hm =>
      have hcharge := h.charge hr hm (hlooks _ _ hm)
      cases t with
      | halt => exact .inr (.ok hcharge)
      | inputExhausted => exact .inr (.ok hcharge)
      | fault cause =>
        refine .inr ?_
        show Matching _ _ (.error (ExecutionError.at _ cause) _)
          (.error (ExecutionError.at _ cause) _)
        rw [(hlooks _ _ hm).executionError_eq]
        exact .error hcharge

/-- Related runs have the same result, if steps keep them related; or they come, related
still, to a step that ends in a trap about which nothing is promised. -/
theorem finishWithin_eq_or {Q : Run → Run → Prop}
    (hreport : ∀ r r', Q r r' → ∀ ending, r'.report ending = r.report ending)
    (hstep : ∀ r r', Q r r' →
      r.StopsIn F ∨ Matching Q (fun _ => False) (Run.step r) (Run.step r'))
    (n : Nat) (h : Q r r') :
    (finishWithin n r').map (fun e => e.2.report e.1) =
        (finishWithin n r).map (fun e => e.2.report e.1) ∨
      ∃ k last last', Q last last' ∧ last.StopsIn F ∧
        finishWithin n r = finishWithin (k + 1) last ∧
        finishWithin n r' = finishWithin (k + 1) last' := by
  induction n generalizing r r' with
  | zero => exact .inl (congrArg Except.ok (hreport r r' h .limitReached))
  | succ n ih =>
    rcases hstep r r' h with hstop | hmatch
    · exact .inr ⟨n, r, r', h, hstop, rfl, rfl⟩
    · simp only [finishWithin]
      generalize Run.step r = x at hmatch ⊢
      generalize Run.step r' = x' at hmatch ⊢
      cases hmatch with
      | excused he => exact he.elim
      | error _ => exact .inl rfl
      | @ok a _ _ ht =>
        cases a with
        | none => exact ih ht
        | some ending => exact .inl (congrArg Except.ok (hreport _ _ ht ending))

variable {n : Nat} {P Q : List Instruction}

/-- Runs that are alike end in the same way, if they look at the same instructions
on their way. -/
theorem finishWithin_eq {program : Program} {input : List Char} {config : Machine.Config}
    (hlen : Q.length = P.length)
    (hsame : ∀ m, Machine.Reachable program input config m → SameAt P Q m.pc) (k : Nat)
    (hr : Run.Reachable program input config r) (h : Tied (Machine.Alike n P Q) r r') :
    (finishWithin k r').map (fun e => e.2.report e.1) =
      (finishWithin k r).map fun e => e.2.report e.1 := by
  -- The instructions are the same only where the run can come, so that is kept too.
  have hresult := finishWithin_eq_or (F := fun _ => False)
    (Q := fun r r' => Run.Reachable program input config r ∧ Tied (Machine.Alike n P Q) r r')
    (fun _ _ h => h.2.report_eq h.2.machine.looksLike) ?_ k ⟨hr, h⟩
  · rcases hresult with heq | ⟨_, _, _, _, ⟨-, _, _, hfalse, -⟩, -⟩
    · exact heq
    · exact hfalse.elim
  · rintro r r' ⟨hr, h⟩
    have hmatch := h.step (fun _ _ => Machine.Alike.looksLike)
      (h.machine.step (F := fun _ => False) hlen (hsame _ ⟨r, hr, rfl⟩))
    refine hmatch.imp_right fun hmatch => ?_
    have hnext := hr.next
    unfold Run.next at hnext
    generalize Run.step r = x at hmatch hnext ⊢
    generalize Run.step r' = x' at hmatch ⊢
    cases hmatch with
    | ok ht => exact .ok ⟨hnext, ht⟩
    | error ht => exact .error ⟨hnext, ht⟩
    | excused he => exact he.elim

end Run

/-! ## Programs -/

theorem Memory.create_congr (n : Nat) {P Q : List Instruction} (hlen : Q.length = P.length)
    (data : List Word) (input : List Char) :
    create n Q data input =
      (create n P data input).map fun mem => { mem with cells := (image n Q data).toArray } := by
  unfold create
  rw [hlen]
  split
  · rfl
  · split
    · rfl
    · rfl

theorem Memory.alike_of_create {n : Nat} {P Q : List Instruction} {data : List Word}
    {input : List Char} (hlen : Q.length = P.length) {mem mem' : Memory}
    (h : create n P data input = .ok mem) (h' : create n Q data input = .ok mem') :
    mem.Alike n P Q mem' := by
  have heq := h'
  rw [create_congr n hlen, h] at heq
  cases heq
  refine ⟨loaded_of_create h, loaded_of_create h', rfl, rfl, fun a => ?_, rfl, rfl⟩
  rw [eq_of_create h]
  simp only [peek?, List.getElem?_toArray, peek?_image, hlen]

theorem simulate_eq {p : Program} {input : List Char} {config : Machine.Config} {r : Run}
    (h : Run.start p input config = .ok r) :
    simulate p input config =
      ((Run.finishWithin (r.limit - r.retired) r).map fun e => e.2.report e.1).mapError
        .execution := by
  simp only [simulate, h, Run.finish]
  cases Run.finishWithin (r.limit - r.retired) r with
  | ok e => rfl
  | error e => rfl

theorem simulate_eq_ok_iff {p : Program} {input : List Char} {config : Machine.Config}
    {report : Report} :
    simulate p input config = .ok report ↔
      ∃ r ending last, Run.start p input config = .ok r ∧ r.finish = .ok (ending, last) ∧
        last.report ending = report := by
  unfold simulate
  constructor
  · intro h
    split at h
    · cases h
    · next r hstart =>
      split at h
      · cases h
      · next ending last hfinish => exact ⟨r, ending, last, hstart, hfinish, Except.ok.inj h⟩
  · rintro ⟨r, ending, last, hstart, hfinish, rfl⟩
    simp only [hstart, hfinish]

theorem simulate_eq_execution_iff {p : Program} {input : List Char} {config : Machine.Config}
    {e : ExecutionError} :
    simulate p input config = .error (.execution e) ↔
      ∃ r, Run.start p input config = .ok r ∧ r.finish = .error e := by
  unfold simulate
  constructor
  · intro h
    split at h
    · cases h
    · next r hstart =>
      split at h
      · next found hfinish =>
        cases h
        exact ⟨r, hstart, hfinish⟩
      · cases h
  · rintro ⟨r, hstart, hfinish⟩
    simp only [hstart, hfinish]

/-- Programs with the same data, and the same instructions wherever the run of one
of them comes, have the same result. -/
theorem simulate_congr {p q : Program} {input : List Char} {config : Machine.Config}
    (hdata : q.data = p.data) (hlen : q.instructions.length = p.instructions.length)
    (hsame : ∀ m, Machine.Reachable p input config m →
      SameAt p.instructions q.instructions m.pc) :
    simulate q input config = simulate p input config := by
  have hwords : q.words = p.words := by rw [Program.words, Program.words, hdata]
  have hcreate := Memory.create_congr config.memorySize hlen p.words input
  cases hp : Memory.create config.memorySize p.instructions p.words input with
  | error e =>
    rw [hp] at hcreate
    simp only [simulate, Run.start, Machine.load, hwords, hp, hcreate]
    rfl
  | ok mem =>
    rw [hp] at hcreate
    cases hd : Datapath.create config.stackCapacity with
    | error e =>
      simp only [simulate, Run.start, Machine.load, hwords, hp, hcreate, hd]
      rfl
    | ok d =>
      obtain ⟨mem', hq⟩ : ∃ mem', Memory.create config.memorySize q.instructions p.words input =
        .ok mem' := ⟨_, hcreate⟩
      have hstart : Run.start p input config =
          .ok ⟨⟨mem, d, 0, 0, none⟩, config.instructionLimit, 0, .zero, .zero⟩ := by
        simp only [Run.start, Machine.load, hp, hd]
        rfl
      have hstart' : Run.start q input config =
          .ok ⟨⟨mem', d, 0, 0, none⟩, config.instructionLimit, 0, .zero, .zero⟩ := by
        simp only [Run.start, Machine.load, hwords, hq, hd]
        rfl
      have halike : Run.Tied (Machine.Alike config.memorySize p.instructions q.instructions)
          ⟨⟨mem, d, 0, 0, none⟩, config.instructionLimit, 0, .zero, .zero⟩
          ⟨⟨mem', d, 0, 0, none⟩, config.instructionLimit, 0, .zero, .zero⟩ :=
        ⟨⟨Memory.alike_of_create hlen hp hq, rfl, rfl, rfl, rfl⟩, rfl, rfl, rfl, rfl⟩
      rw [simulate_eq hstart, simulate_eq hstart',
        Run.finishWithin_eq hlen hsame _ (.start hstart) halike]

/-! ## Terms -/

theorem sameAt_of_skeleton {p q : Program} (h : q.skeleton = p.skeleton) (k : Nat) :
    SameAt p.instructions q.instructions k := by
  rw [SameAt, ← List.getElem?_map, ← List.getElem?_map]
  exact congrArg (·[k]?) h

/-- Terms do not come into a run: programs with the same data, and with the same opcodes and
arguments, have the same report, cannot be loaded for the same reason, or fault at the same
place with the same words. -/
theorem simulate_eq_of_skeleton {p q : Program} (hdata : q.data = p.data)
    (hskeleton : q.skeleton = p.skeleton) (input : List Char) (config : Machine.Config) :
    simulate q input config = simulate p input config := by
  have hlen : q.instructions.length = p.instructions.length := by
    have hmap := congrArg List.length hskeleton
    rwa [Program.skeleton, Program.skeleton, List.length_map, List.length_map] at hmap
  exact simulate_congr hdata hlen fun m _ => sameAt_of_skeleton hskeleton m.pc

/-- Underflows the stack in its second instruction, which has the given term. -/
def underflowing (term : Option Term) : Program where
  instructions := [{ opcode := .nop }, { opcode := .dup, term }]

/-- The fault of an instruction is told in the same words with a term and without. -/
theorem simulate_underflowing_term :
    (underflowing (some ⟨7, "a comment", "dup"⟩)).skeleton = (underflowing none).skeleton ∧
      simulate (underflowing (some ⟨7, "a comment", "dup"⟩)) [] ⟨131, 4, 9⟩ =
        simulate (underflowing none) [] ⟨131, 4, 9⟩ ∧
      simulate (underflowing none) [] ⟨131, 4, 9⟩ =
        .error (.execution ⟨1, 1, some .dup, "DUP", .stackUnderflow 0 0⟩) := by
  refine ⟨rfl, ?_, by decide +kernel⟩
  exact simulate_eq_of_skeleton (p := underflowing none)
    (q := underflowing (some ⟨7, "a comment", "dup"⟩)) rfl rfl [] _

end Microstack
