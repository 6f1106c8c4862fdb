/-
# `Microstack.Proofs.Bounds` — every access of a run is in bounds

Slots and cells are reached through total operations: a slot that is not there is read
as zero, a cell that is not there is left alone, and a cell with no word in it is read
as zero too.  No run ever comes to that.

The invariant of the machine is known of every reachable run, between two steps.  The
accesses are made within a step, though, by an instruction that may stop half-way, so
this module looks at the machine between any two transfers:

    loaded  ──transfer──▶  ·  ──transfer──▶  ·  ──transfer──▶  ·

`Machine.Occurs` are the machines that come about in this way, by transfers in any
order, whether they complete or fail, with the program counter, the ticks and the
current instruction set to anything in between.  The order in which microcode has them
plays no part: the invariant is kept by each of them.
-/
import Microstack.Proofs.Machine
import Microstack.Proofs.Tally

namespace Microstack

/-! ## When a run can start -/

theorem Memory.exists_create_iff {size : Nat} {program : List Instruction} {data : List Word}
    {input : List Char} :
    (∃ m, Memory.create size program data input = .ok m) ↔
      program.length + 128 < size ∧ data.length ≤ 128 := by
  have hbase : Address.programBase = 128 := rfl
  rw [Memory.create, hbase]
  by_cases hsize : size ≤ program.length + 128
  · rw [if_pos hsize]
    constructor
    · rintro ⟨m, hm⟩
      cases hm
    · rintro ⟨hlt, -⟩
      exact absurd hlt (Nat.not_lt.2 hsize)
  · rw [if_neg hsize]
    by_cases hdata : 128 < data.length
    · rw [if_pos hdata]
      constructor
      · rintro ⟨m, hm⟩
        cases hm
      · rintro ⟨-, hle⟩
        exact absurd hle (Nat.not_le.2 hdata)
    · rw [if_neg hdata]
      exact ⟨fun _ => ⟨Nat.not_le.1 hsize, Nat.not_lt.1 hdata⟩, fun _ => ⟨_, rfl⟩⟩

theorem Datapath.exists_create_iff {capacity : Nat} :
    (∃ d, Datapath.create capacity = .ok d) ↔ 0 < capacity := by
  rw [Datapath.create]
  by_cases hzero : capacity = 0
  · rw [if_pos hzero]
    constructor
    · rintro ⟨d, hd⟩
      cases hd
    · intro hpos
      exact absurd hzero (Nat.ne_of_gt hpos)
  · rw [if_neg hzero]
    exact ⟨fun _ => Nat.pos_of_ne_zero hzero, fun _ => ⟨_, rfl⟩⟩

theorem Run.exists_start_iff {program : Program} {input : List Char} {config : Machine.Config} :
    (∃ r, Run.start program input config = .ok r) ↔
      program.length + 128 < config.memorySize ∧ program.words.length ≤ 128 ∧
        0 < config.stackCapacity := by
  rw [← and_assoc]
  constructor
  · rintro ⟨r, hr⟩
    obtain ⟨m, hm, -⟩ := except_bind_eq_ok_iff.1 hr
    obtain ⟨mem, hmem, hrest⟩ := except_bind_eq_ok_iff.1 hm
    obtain ⟨d, hd, -⟩ := except_bind_eq_ok_iff.1 hrest
    exact ⟨Memory.exists_create_iff.1 ⟨mem, hmem⟩, Datapath.exists_create_iff.1 ⟨d, hd⟩⟩
  · rintro ⟨hmemory, hstack⟩
    obtain ⟨mem, hmem⟩ := Memory.exists_create_iff.2 hmemory
    obtain ⟨d, hd⟩ := Datapath.exists_create_iff.2 hstack
    have hload : Machine.load program input config = .ok { memory := mem, datapath := d } :=
      except_bind_eq_ok_iff.2 ⟨mem, hmem, except_bind_eq_ok_iff.2 ⟨d, hd, rfl⟩⟩
    exact ⟨_, except_bind_eq_ok_iff.2 ⟨_, hload, rfl⟩⟩

/-! ## Machines between two transfers -/

namespace Machine

variable {program : Program} {input : List Char} {config : Config} {m : Machine}

/-- The machines that transfers make of a loaded one, completing or not. -/
inductive Occurs (program : Program) (input : List Char) (config : Config) : Machine → Prop
  | load {m : Machine} : load program input config = .ok m → Occurs program input config m
  | completed {α : Type} {c : Microcode α} {m m' : Machine} {a : α} :
      Occurs program input config m → Microcode.Transfer c → c m = .ok a m' →
      Occurs program input config m'
  | failed {α : Type} {c : Microcode α} {m m' : Machine} {t : Trap} :
      Occurs program input config m → Microcode.Transfer c → c m = .error t m' →
      Occurs program input config m'
  | registers {m : Machine} (pc ticks : Nat) (current : Option Instruction) :
      Occurs program input config m → Occurs program input config { m with pc, ticks, current }

theorem Occurs.transfers (program : Program) (input : List Char) (config : Config) :
    Transfers (Occurs program input config) (Occurs program input config) where
  transfer {α c} ht := by
    intro m hm
    cases hc : c m with
    | ok a m' => exact .completed hm ht hc
    | error t m' => exact .failed hm ht hc
  tick := Leads.modify fun m hm => .registers m.pc (m.ticks + 1) m.current hm
  advance :=
    (Leads.modify fun m hm => .registers (m.pc + 1) m.ticks m.current hm).bind fun _ =>
      Leads.modify fun m hm => .registers m.pc (m.ticks + 1) m.current hm
  jump pc :=
    (Leads.modify fun m hm => .registers pc m.ticks m.current hm).bind fun _ =>
      Leads.modify fun m hm => .registers m.pc (m.ticks + 1) m.current hm

theorem occurs_of_reachable {r : Run} (h : Run.Reachable program input config r) :
    r.machine.Occurs program input config := by
  refine h.keeps (fun m hm => .load hm) ((Occurs.transfers program input config).step ?_)
  intro m current hm
  exact .registers m.pc m.ticks current hm

theorem Occurs.invariant (h : m.Occurs program input config) : m.Invariant program config := by
  induction h with
  | load hload => exact invariant_of_load hload
  | completed _ ht hc ih => exact ((Invariant.transfers program config).transfer ht).ok ih hc
  | failed _ ht hc ih => exact ((Invariant.transfers program config).transfer ht).error ih hc
  | registers pc ticks current _ ih => exact ⟨ih.datapath, ih.memory⟩

end Machine

/-! ## Accesses -/

/-- Whatever the machine does next, the slots and cells that it reaches are there, and a
cell that is read has a word in it. -/
structure Machine.InBounds (m : Machine) : Prop where
  /-- A push stores its word in a slot, also one that then fails. -/
  store : ∀ w, ∃ d, Datapath.store w m.datapath = .ok () d ∧ d.slots[m.datapath.head]? = some w
  /-- A word found below the top is in a slot. -/
  top : ∀ offset w, m.datapath.top offset = .ok w →
    m.datapath.slots[m.datapath.head - offset - 1]? = some w
  /-- There is a slot for each word of the stack. -/
  words : m.datapath.head ≤ m.datapath.slots.size
  /-- A word that was read is in the cell at the address. -/
  read : ∀ w mem, Memory.read m.memory = .ok w mem →
    mem.cells[m.memory.address]? = some (.word w)
  /-- A word that was written is in the cell at the address. -/
  write : ∀ w mem, Memory.write w m.memory = .ok () mem →
    mem.cells[m.memory.address]? = some (.word w)
  /-- Every program counter of the program has a cell with an instruction. -/
  fetch : ∀ pc < m.memory.programLength, ∃ i,
    m.memory.cells[m.memory.programStart + pc]? = some (.instruction i)

theorem Datapath.Fits.getElem?_of_top {d : Datapath} (h : d.Fits) {offset : Nat} {w : Word}
    (htop : d.top offset = .ok w) : d.slots[d.head - offset - 1]? = some w := by
  have hlt : d.head < d.slots.size := h
  simp only [Datapath.top] at htop
  split at htop
  · cases htop
  · split at htop
    · cases htop
    · cases htop
      rw [Array.getD_eq_getD_getElem?, Array.getElem?_eq_getElem (by omega), Option.getD_some]

namespace Memory

variable {m mem : Memory} {n : Nat} {program : List Instruction} {w : Word}

theorem getElem?_cells_stored {a : Nat} (ha : a < m.size) :
    (m.stored a w).cells[a]? = some (.word w) := by
  have hlt : a < m.cells.size := ha
  simp [stored, hlt]

theorem Loaded.getElem?_of_read (h : m.Loaded n program) (hread : read m = .ok w mem) :
    mem.cells[m.address]? = some (.word w) := by
  have hstart := h.start_le
  rcases h.read_eq_ok_iff.1 hread with ⟨haddress, c, rest, -, rfl, rfl⟩ | ⟨-, hlt, hpeek, rfl⟩
  · rw [haddress]
    exact getElem?_cells_stored (Nat.lt_of_lt_of_le (Nat.lt_trans (by decide) h.two_lt) hstart)
  · obtain ⟨v, hv⟩ := h.word_below _ hlt
    rw [peek?, hv] at hpeek
    cases hpeek
    exact hv

theorem Loaded.getElem?_of_write (h : m.Loaded n program) (hwrite : write w m = .ok () mem) :
    mem.cells[m.address]? = some (.word w) := by
  have hstart := h.start_le
  rcases h.write_eq_ok_iff.1 hwrite with ⟨haddress, rfl⟩ | ⟨-, hlt, rfl⟩
  · rw [haddress]
    exact getElem?_cells_stored (Nat.lt_of_lt_of_le (Nat.lt_trans (by decide) h.two_lt) hstart)
  · exact getElem?_cells_stored (Nat.lt_of_lt_of_le hlt hstart)

theorem Loaded.fetch_of_lt (h : m.Loaded n program) {pc : Nat} (hpc : pc < program.length) :
    m.fetch pc = .ok program[pc] :=
  h.fetch_eq_ok_iff.2 (List.getElem?_eq_getElem hpc)

end Memory

theorem Machine.Invariant.inBounds {program : Program} {config : Config} {m : Machine}
    (h : m.Invariant program config) : m.InBounds where
  store w := by
    have hlt : m.datapath.head < m.datapath.slots.size := h.fits
    refine ⟨_, rfl, ?_⟩
    simp [hlt]
  top _ _ htop := h.fits.getElem?_of_top htop
  words := Nat.le_of_lt h.fits
  read _ _ hread := h.memory.getElem?_of_read hread
  write _ _ hwrite := h.memory.getElem?_of_write hwrite
  fetch pc hpc := by
    rw [h.memory.programLength_eq] at hpc
    refine ⟨program.instructions[pc], ?_⟩
    rw [h.memory.text_above, List.getElem?_eq_getElem hpc]
    rfl

/-! ## Runs -/

/-- A run can start exactly if the program and its data fit and there is a slot.  From
then on, whatever its steps return and between any two transfers, the machine keeps its
layout, every access is in bounds, and the program text is the one that was loaded. -/
theorem reachable_run_in_bounds (program : Program) (input : List Char)
    (config : Machine.Config) :
    ((∃ r, Run.start program input config = .ok r) ↔
      program.length + 128 < config.memorySize ∧ program.words.length ≤ 128 ∧
        0 < config.stackCapacity) ∧
    (∀ r, Run.Reachable program input config r →
      r.machine.Occurs program input config ∧
        ∀ op : Opcode, op.code < r.counts.toList.length ∧ op.code < r.spent.toList.length) ∧
    ∀ m, Machine.Occurs program input config m →
      m.Invariant program config ∧ m.InBounds ∧
        ∀ (pc : Nat) (h : pc < program.instructions.length),
          m.memory.fetch pc = .ok program.instructions[pc] := by
  refine ⟨Run.exists_start_iff, ?_, ?_⟩
  · intro r hr
    exact ⟨Machine.occurs_of_reachable hr,
      fun op => ⟨r.counts.code_lt_length op, r.spent.code_lt_length op⟩⟩
  · intro m hm
    have hinvariant := hm.invariant
    exact ⟨hinvariant, hinvariant.inBounds, fun _ hpc => hinvariant.memory.fetch_of_lt hpc⟩

/-- A push onto a stack with a single slot, in the smallest memory that holds it.  The step
stores the word and then fails; the machine that it leaves is stepped again. -/
theorem reachable_run_in_bounds_single_slot :
    ∃ r, Run.start { instructions := [{ opcode := .push, argument := some (.char 'a') }] } []
        { memorySize := 130, stackCapacity := 1 } = .ok r ∧
      r.next.next.machine.InBounds := by
  have hbounds := reachable_run_in_bounds
    { instructions := [{ opcode := .push, argument := some (.char 'a') }] } []
    { memorySize := 130, stackCapacity := 1 }
  obtain ⟨r, hr⟩ := hbounds.1.2 (by decide)
  have hoccurs := (hbounds.2.1 r.next.next (.next (.next (.start hr)))).1
  exact ⟨r, hr, (hbounds.2.2 _ hoccurs).2.1⟩

end Microstack
