/-
# `Microstack.Proofs.Microcode` — all microcode in one description

Microcode is built from transfers of the datapath, transfers of memory, looks at
the state, ticks and changes of the program counter.  The first sections say when
each of these completes and when it fails; together with the lemmas about the datapath
and about memory this takes any microcode apart.

The opcodes are gone through once, in `sequence_execute`: the microcode of an instruction
is a `Sequence` of transfers with ticks between them, at whose end the program counter
moves.  The description says all that anything later asks of an opcode:

    the ticks spent, and those to come          the indices of `Sequence`
    the registers that were latched             `Latches`
    where the argument is looked at             `Part.literal`, `Sequence.jump`
    where memory is read                        `Part.read`, `Opcode.readTicks`

Whatever is to hold of every instruction is proved by induction on such sequences, with one
case for each kind of transfer.  Here that is where an instruction stands when it ends:

    it completes         with the ticks of its opcode          `Sequence.ticks_eq`
    it fails             before its last tick                  `Sequence.ticks_lt`
    it stops, no fault   in a `HALT`, or reading empty input   `Sequence.stop`
-/
import Microstack.Proofs.Datapath
import Microstack.Proofs.Memory
import Microstack.Run

namespace Microstack

namespace Microcode

variable {α : Type} {m m' : Machine} {a : α}

/-! ## When a transfer completes -/

theorem datapath_eq_ok_iff {act : Datapath.Action α} :
    datapath act m = .ok a m' ↔
      ∃ d, act m.datapath = .ok a d ∧ m' = { m with datapath := d } := by
  rw [datapath_apply]
  cases act m.datapath with
  | ok b d => simp [eq_comm, and_comm]
  | error f d => simp

theorem memory_eq_ok_iff {act : Memory.Action α} :
    memory act m = .ok a m' ↔
      ∃ mem, act m.memory = .ok a mem ∧ m' = { m with memory := mem } := by
  rw [memory_apply]
  cases act m.memory with
  | ok b mem => simp [eq_comm, and_comm]
  | error t mem => simp

theorem inspect_eq_ok_iff {look : Machine → Except Fault α} :
    inspect look m = .ok a m' ↔ look m = .ok a ∧ m' = m := by
  simp only [inspect]
  cases look m with
  | ok b => simp [eq_comm]
  | error f => simp

theorem tick_eq_ok_iff {u : Unit} : tick m = .ok u m' ↔ m' = { m with ticks := m.ticks + 1 } := by
  rw [tick, modify_eq_ok_iff, eq_comm]

theorem advance_eq_ok_iff {u : Unit} : advance m = .ok u m' ↔ m' = { m with pc := m.pc + 1 } := by
  rw [advance, modify_eq_ok_iff, eq_comm]

theorem jumpTo_eq_ok_iff {u : Unit} {pc : Nat} :
    jumpTo pc m = .ok u m' ↔ m' = { m with pc := pc } := by
  rw [jumpTo, modify_eq_ok_iff, eq_comm]

theorem jump_eq_ok_iff {u : Unit} {i : Instruction} :
    jump i m = .ok u m' ↔
      ∃ pc, i.target = .ok pc ∧ m' = { m with pc := pc, ticks := m.ticks + 1 } := by
  simp only [jump, bind_eq_ok_iff, inspect_eq_ok_iff, jumpTo_eq_ok_iff, tick_eq_ok_iff]
  constructor
  · rintro ⟨pc, _, ⟨htarget, rfl⟩, _, _, rfl, rfl⟩
    exact ⟨pc, htarget, rfl⟩
  · rintro ⟨pc, htarget, rfl⟩
    exact ⟨pc, _, ⟨htarget, rfl⟩, (), _, rfl, rfl⟩

theorem accumulator_eq_ok_iff {w : Word} :
    accumulator m = .ok w m' ↔ w = m.datapath.accumulator ∧ m' = m := by
  simp only [accumulator, bind_eq_ok_iff, get_eq_ok_iff, pure_eq_ok_iff]
  constructor
  · rintro ⟨_, _, ⟨rfl, rfl⟩, rfl, rfl⟩
    exact ⟨rfl, rfl⟩
  · rintro ⟨rfl, rfl⟩
    exact ⟨_, _, ⟨rfl, rfl⟩, rfl, rfl⟩

theorem push_eq_ok_iff {u : Unit} {w : Word} :
    push w m = .ok u m' ↔
      m.datapath.head + 1 < m.datapath.capacity ∧
        m' = { m with datapath := m.datapath.pushed w } := by
  simp only [push, datapath_eq_ok_iff, Datapath.push_eq_ok_iff]
  constructor
  · rintro ⟨_, ⟨hroom, rfl⟩, rfl⟩
    exact ⟨hroom, rfl⟩
  · rintro ⟨hroom, rfl⟩
    exact ⟨_, ⟨hroom, rfl⟩, rfl⟩

theorem adjustHead_eq_ok_iff {k : Nat} (hk : 1 ≤ k ∧ k ≤ 3) {u : Unit} :
    adjustHead (-k) m = .ok u m' ↔
      k ≤ m.datapath.head ∧ m.datapath.head - k < m.datapath.capacity ∧
        m' = { m with datapath := m.datapath.popped k } := by
  simp only [adjustHead, datapath_eq_ok_iff, Datapath.adjustHead_neg_eq_ok_iff hk]
  constructor
  · rintro ⟨_, ⟨hle, hlt, rfl⟩, rfl⟩
    exact ⟨hle, hlt, rfl⟩
  · rintro ⟨hle, hlt, rfl⟩
    exact ⟨_, ⟨hle, hlt, rfl⟩, rfl⟩

theorem latchAlu_eq_ok_iff (h : m.datapath.Fits) {u : Unit} {op : AluOp} :
    latchAlu op m = .ok u m' ↔
      ∃ w operands r, m.datapath.words = w ++ operands ∧ op.value? operands = some r ∧
        m' = { m with datapath := m.datapath.accumulated r } := by
  simp only [latchAlu, datapath_eq_ok_iff, Datapath.latch_eq_ok_iff, h.result_eq_ok_iff]
  constructor
  · rintro ⟨_, ⟨r, ⟨w, operands, hw, hv⟩, rfl⟩, rfl⟩
    exact ⟨w, operands, r, hw, hv, rfl⟩
  · rintro ⟨w, operands, r, hw, hv, rfl⟩
    exact ⟨_, ⟨r, ⟨w, operands, hw, hv⟩, rfl⟩, rfl⟩

theorem latchAddress_eq_ok_iff {u : Unit} {offset : Nat} :
    latchAddress offset m = .ok u m' ↔
      ∃ a, m.datapath.top offset = .ok a ∧ 0 ≤ a.toInt ∧ a.toInt ≤ m.memory.size ∧
        m' = { m with memory := m.memory.addressed a.toInt.toNat } := by
  simp only [latchAddress, top, bind_eq_ok_iff, inspect_eq_ok_iff, memory_eq_ok_iff,
    Memory.latch_eq_ok_iff]
  constructor
  · rintro ⟨a, _, ⟨ha, rfl⟩, _, ⟨h0, h1, rfl⟩, rfl⟩
    exact ⟨a, ha, h0, h1, rfl⟩
  · rintro ⟨a, ha, h0, h1, rfl⟩
    exact ⟨a, _, ⟨ha, rfl⟩, _, ⟨h0, h1, rfl⟩, rfl⟩

/-! ## When a transfer fails -/

theorem datapath_eq_error_iff {act : Datapath.Action α} {t : Trap} :
    datapath act m = .error t m' ↔
      ∃ f d, act m.datapath = .error f d ∧ t = .fault f ∧ m' = { m with datapath := d } := by
  rw [datapath_apply]
  cases act m.datapath with
  | ok b d => simp
  | error f d => simp [eq_comm]

theorem memory_eq_error_iff {act : Memory.Action α} {t : Trap} :
    memory act m = .error t m' ↔
      ∃ mem, act m.memory = .error t mem ∧ m' = { m with memory := mem } := by
  rw [memory_apply]
  cases act m.memory with
  | ok b mem => simp
  | error e mem => simp [eq_comm, and_comm]

theorem inspect_eq_error_iff {look : Machine → Except Fault α} {t : Trap} :
    inspect look m = .error t m' ↔ ∃ f, look m = .error f ∧ t = .fault f ∧ m' = m := by
  simp only [inspect]
  cases look m with
  | ok b => simp
  | error f => simp [eq_comm]

/-- A jump fails only for want of a target. -/
theorem jump_eq_error_iff {i : Instruction} {t : Trap} :
    jump i m = .error t m' ↔ ∃ f, i.target = .error f ∧ t = .fault f ∧ m' = m := by
  refine bind_eq_error_iff.trans ⟨?_, fun h => .inl (inspect_eq_error_iff.2 h)⟩
  rintro (hfail | ⟨pc, mid, -, hrest⟩)
  · exact inspect_eq_error_iff.1 hfail
  · cases hrest

/-! ## What a transfer leaves behind -/

theorem leads_datapath {P : Machine → Prop} {act : Datapath.Action α}
    {R : Machine → Datapath → Prop} (hR : ∀ m, P m → R m m.datapath)
    (hact : ∀ m, P m → Leads (R m) act (R m))
    (hP : ∀ m d, P m → R m d → P { m with datapath := d }) : Leads P (datapath act) P := by
  intro m hm
  rw [datapath_apply]
  have := hact m hm m.datapath (hR m hm)
  cases h : act m.datapath with
  | ok b d =>
    rw [h] at this
    exact hP m d hm this
  | error f d =>
    rw [h] at this
    exact hP m d hm this

theorem leads_memory {P : Machine → Prop} {act : Memory.Action α}
    {R : Machine → Memory → Prop} (hR : ∀ m, P m → R m m.memory)
    (hact : ∀ m, P m → Leads (R m) act (R m))
    (hP : ∀ m mem, P m → R m mem → P { m with memory := mem }) : Leads P (memory act) P := by
  intro m hm
  rw [memory_apply]
  have := hact m hm m.memory (hR m hm)
  cases h : act m.memory with
  | ok b mem =>
    rw [h] at this
    exact hP m mem hm this
  | error t mem =>
    rw [h] at this
    exact hP m mem hm this

theorem leads_inspect {P : Machine → Prop} (look : Machine → Except Fault α) :
    Leads P (inspect look) P := by
  intro m hm
  simp only [inspect]
  cases look m with
  | ok b => exact hm
  | error f => exact hm

theorem leads_accumulator {P : Machine → Prop} : Leads P accumulator P :=
  Leads.get.bind fun _ => Leads.pure _

/-! ## The transfers -/

/-- The transfers that microcode is made of, ticks and changes of the program
counter apart. -/
inductive Transfer : {α : Type} → Microcode α → Prop
  | adjustHead (delta : Int) : Transfer (adjustHead delta)
  | push (w : Word) : Transfer (push w)
  | latchAlu (op : AluOp) : Transfer (latchAlu op)
  | popTruth : Transfer (datapath Datapath.popTruth)
  | accumulator : Transfer accumulator
  | top (offset : Nat) : Transfer (top offset)
  | topIncremented (offset : Nat) : Transfer (inspect fun m => m.datapath.topIncremented offset)
  /-- A look at the instruction rather than at the machine. -/
  | operand {α : Type} (found : Except Fault α) : Transfer (inspect fun _ => found)
  | latchAddress (offset : Nat) : Transfer (latchAddress offset)
  | read : Transfer Microcode.read
  | write (w : Word) : Transfer (Microcode.write w)

/-- The machines agree on everything but memory and the datapath. -/
def Framed (m₀ m : Machine) : Prop :=
  m.pc = m₀.pc ∧ m.ticks = m₀.ticks ∧ m.current = m₀.current

theorem framed_datapath {α : Type} (m₀ : Machine) (act : Datapath.Action α) :
    Leads (Framed m₀) (datapath act) (Framed m₀) := by
  intro m hm
  rw [datapath_apply]
  cases act m.datapath with
  | ok a d => exact hm
  | error f d => exact hm

theorem framed_memory {α : Type} (m₀ : Machine) (act : Memory.Action α) :
    Leads (Framed m₀) (memory act) (Framed m₀) := by
  intro m hm
  rw [memory_apply]
  cases act m.memory with
  | ok a mem => exact hm
  | error t mem => exact hm

/-- Only memory and the datapath change in a transfer, also in one that fails. -/
theorem Transfer.framed {α : Type} {c : Microcode α} (hc : Transfer c) (m₀ : Machine) :
    Leads (Framed m₀) c (Framed m₀) := by
  cases hc with
  | adjustHead _ => exact framed_datapath m₀ _
  | push _ => exact framed_datapath m₀ _
  | latchAlu _ => exact framed_datapath m₀ _
  | popTruth => exact framed_datapath m₀ _
  | accumulator => exact leads_accumulator
  | top _ => exact leads_inspect _
  | topIncremented _ => exact leads_inspect _
  | operand _ => exact leads_inspect _
  | latchAddress _ => exact (leads_inspect _).bind fun _ => framed_memory m₀ _
  | read => exact framed_memory m₀ _
  | write _ => exact framed_memory m₀ _

end Microcode

/-! ## The transfers of an instruction -/

/-- The numbers of ticks after which the microcode of an opcode reads memory. -/
def Opcode.readTicks : Opcode → List Nat
  | readDirect => [1]
  | readIndirect => [0, 1]
  | writeIndirect => [0]
  | _ => []

namespace Microcode

/-- Which registers an instruction has latched. -/
structure Latches where
  alu : Bool
  address : Bool
  /-- The address is still the word on top of the stack. -/
  onTop : Bool

/-- At the start of an instruction. -/
def Latches.none : Latches := ⟨false, false, false⟩

/-- The stack may have changed since the address was latched. -/
def Latches.moved (l : Latches) : Latches := { l with onTop := false }

/-- A transfer of the microcode of an instruction, after a number of ticks, with what was
latched before it and after.  A register is used only once it was latched, and a slot that
comes into sight is overwritten first. -/
inductive Part (i : Instruction) (spent : Nat) :
    {α : Type} → Latches → Latches → Microcode α → Prop
  | literal {l : Latches} : i.opcode.takesArgument = true →
      Part i spent l l.moved (inspect fun _ => i.literal)
  | top {l : Latches} (offset : Nat) : Part i spent l l.moved (top offset)
  | topIncremented {l : Latches} (offset : Nat) :
      Part i spent l l.moved (inspect fun m => m.datapath.topIncremented offset)
  | push {l : Latches} (w : Word) : Part i spent l l.moved (push w)
  | lower {l : Latches} (k : Nat) : 1 ≤ k ∧ k ≤ 3 → Part i spent l l.moved (adjustHead (-k))
  /-- A branch condition goes through the accumulator, but is latched there by this very
  transfer. -/
  | popTruth {l : Latches} : Part i spent l l.moved (datapath Datapath.popTruth)
  | latchAlu {l : Latches} (op : AluOp) :
      Part i spent l { l.moved with alu := true } (latchAlu op)
  | accumulator {l : Latches} : l.alu = true → Part i spent l l.moved accumulator
  | latchAddress {l : Latches} (offset : Nat) :
      Part i spent l { l with address := true, onTop := decide (offset = 0) }
        (latchAddress offset)
  | read {l : Latches} : l.address = true → spent ∈ i.opcode.readTicks →
      (i.opcode ≠ .readDirect → l.onTop = true) → Part i spent l l.moved Microcode.read
  | write {l : Latches} (w : Word) : l.address = true → Part i spent l l.moved (Microcode.write w)

/-- Microcode of an instruction, with the ticks that it has spent and those to come.  All
that can fail comes before the last tick. -/
inductive Sequence (i : Instruction) : Nat → Nat → Latches → Microcode Unit → Prop
  | finish {spent : Nat} {l : Latches} : Sequence i spent 1 l (advance >>= fun _ => tick)
  | jump {spent : Nat} {l : Latches} : i.opcode.isJump = true →
      Sequence i spent 1 l (Microcode.jump i)
  | halt {spent : Nat} {l : Latches} : Sequence i spent 0 l (throw .halt)
  | unsupported {spent left : Nat} {l : Latches} (op : Opcode) :
      Sequence i spent (left + 1) l (throw (.fault (.unsupportedOpcode op)))
  | tick {spent left : Nat} {l : Latches} {c : Microcode Unit} :
      Sequence i (spent + 1) (left + 1) l c → Sequence i spent (left + 2) l (tick >>= fun _ => c)
  | transfer {α : Type} {spent left : Nat} {l l' : Latches} {c : Microcode α}
      {f : α → Microcode Unit} :
      Part i spent l l' c → (∀ a, Sequence i spent (left + 1) l' (f a)) →
      Sequence i spent (left + 1) l (c >>= f)

variable {i : Instruction} {spent left : Nat} {l l' : Latches}

theorem Part.transfer {c : Microcode α} (hc : Part i spent l l' c) : Transfer c := by
  cases hc with
  | literal _ => exact .operand i.literal
  | top offset => exact .top offset
  | topIncremented offset => exact .topIncremented offset
  | push w => exact .push w
  | lower k _ => exact .adjustHead (-k)
  | popTruth => exact .popTruth
  | latchAlu op => exact .latchAlu op
  | accumulator _ => exact .accumulator
  | latchAddress offset => exact .latchAddress offset
  | read _ _ _ => exact .read
  | write w _ => exact .write w

/-! ## All microcode -/

namespace Sequence

theorem readDirect (h : i.opcode = .readDirect) : Sequence i 0 2 l readDirect :=
  .transfer (.latchAddress 0) fun _ => .transfer (.lower 1 (by decide)) fun _ => .tick <|
    .transfer (.read rfl (by simp [h, Opcode.readTicks]) (absurd h)) fun _ =>
    .transfer (.push _) fun _ => .finish

theorem readIndirect (h : i.opcode = .readIndirect) : Sequence i 0 5 l readIndirect :=
  -- `.. p` to `.. p q`
  .transfer (.latchAddress 0) fun _ =>
    .transfer (.read rfl (by simp [h, Opcode.readTicks]) fun _ => rfl) fun _ =>
    .transfer (.push _) fun _ => .tick <|
  -- `.. p q` to `.. p q v`
  .transfer (.latchAddress 0) fun _ =>
    .transfer (.read rfl (by simp [h, Opcode.readTicks]) fun _ => rfl) fun _ =>
    .transfer (.push _) fun _ => .tick <|
  -- `.. p q v` to `.. v q p`
  .transfer (.top 0) fun _ => .transfer (.top 1) fun _ => .transfer (.top 2) fun _ =>
    .transfer (.lower 3 (by decide)) fun _ => .transfer (.push _) fun _ =>
    .transfer (.push _) fun _ => .transfer (.push _) fun _ => .tick <|
  .transfer (.latchAddress 0) fun _ => .tick <|
  -- the pointer goes up, and `.. v q p` to `.. v`
  .transfer (.latchAlu .increment) fun _ => .transfer (.accumulator rfl) fun _ =>
    .transfer (.write _ rfl) fun _ => .transfer (.lower 2 (by decide)) fun _ => .finish

theorem writeDirect : Sequence i 0 2 l writeDirect :=
  .transfer (.latchAddress 0) fun _ => .tick <| .transfer (.top 1) fun _ =>
    .transfer (.write _ rfl) fun _ => .transfer (.lower 2 (by decide)) fun _ => .finish

theorem writeIndirect (h : i.opcode = .writeIndirect) : Sequence i 0 5 l writeIndirect :=
  -- `.. x p` to `.. x p q`
  .transfer (.latchAddress 0) fun _ =>
    .transfer (.read rfl (by simp [h, Opcode.readTicks]) fun _ => rfl) fun _ =>
    .transfer (.push _) fun _ => .tick <|
  .transfer (.latchAddress 0) fun _ => .tick <|
  .transfer (.top 2) fun _ => .transfer (.write _ rfl) fun _ => .tick <|
  .transfer (.latchAddress 1) fun _ => .tick <|
  .transfer (.topIncremented 0) fun _ => .transfer (.write _ rfl) fun _ =>
    .transfer (.lower 3 (by decide)) fun _ => .finish

theorem arithmetic (op : AluOp) : Sequence i 0 2 l (arithmetic op) :=
  .transfer (.latchAlu op) fun _ => .transfer (.lower op.arity op.arity_bounds) fun _ => .tick <|
    .transfer (.accumulator rfl) fun _ => .transfer (.push _) fun _ => .finish

theorem jumpIfNotTrue (h : i.opcode.isJump = true) : Sequence i 0 1 l (jumpIfNotTrue i) := by
  refine .transfer .popTruth fun b => ?_
  cases b with
  | true => exact .finish
  | false => exact .jump h

theorem rotate : Sequence i 0 1 l rotate :=
  .transfer (.top 0) fun _ => .transfer (.top 1) fun _ => .transfer (.top 2) fun _ =>
    .transfer (.lower 3 (by decide)) fun _ => .transfer (.push _) fun _ =>
    .transfer (.push _) fun _ => .transfer (.push _) fun _ => .finish

theorem swap : Sequence i 0 1 l swap :=
  .transfer (.top 0) fun _ => .transfer (.top 1) fun _ =>
    .transfer (.lower 2 (by decide)) fun _ => .transfer (.push _) fun _ =>
    .transfer (.push _) fun _ => .finish

end Sequence

/-- All microcode is a sequence that has the ticks of its opcode to come, and nothing
latched. -/
theorem sequence_execute (i : Instruction) :
    Sequence i 0 i.opcode.ticks Latches.none (execute i) := by
  simp only [execute]
  cases hop : i.opcode with
  | readDirect => exact .readDirect hop
  | readIndirect => exact .readIndirect hop
  | writeDirect => exact .writeDirect
  | writeIndirect => exact .writeIndirect hop
  | jnt => exact .jumpIfNotTrue (by rw [hop]; rfl)
  | jmp => exact .jump (by rw [hop]; rfl)
  | begin => exact .finish
  | nop => exact .finish
  | mod => exact .arithmetic _
  | plus => exact .arithmetic _
  | mult => exact .arithmetic _
  | pow => exact .arithmetic _
  | lt => exact .arithmetic _
  | neg => exact .arithmetic _
  | invert => exact .arithmetic _
  | rot => exact .rotate
  | dup => exact .transfer (.top 0) fun _ => .transfer (.push _) fun _ => .finish
  | dupUnder => exact .transfer (.top 1) fun _ => .transfer (.push _) fun _ => .finish
  | swap => exact .swap
  | push =>
    exact .transfer (.literal (by rw [hop]; rfl)) fun _ => .transfer (.push _) fun _ => .finish
  | drop => exact .transfer (.lower 1 (by decide)) fun _ => .finish
  | halt => exact .halt
  | minus => exact .unsupported _
  | div => exact .unsupported _
  | print => exact .unsupported _

/-! ## Ticks -/

namespace Sequence

variable {c : Microcode Unit}

theorem ticks_eq (hc : Sequence i spent left l c) {u : Unit} (h : c m = .ok u m') :
    m'.ticks = m.ticks + left := by
  induction hc generalizing m with
  | finish =>
    cases h
    rfl
  | jump _ =>
    obtain ⟨pc, -, rfl⟩ := jump_eq_ok_iff.1 h
    rfl
  | halt => cases h
  | unsupported _ => cases h
  | tick _ ih =>
    obtain ⟨_, mid, htick, hrest⟩ := bind_eq_ok_iff.1 h
    have hmid : mid.ticks = m.ticks + 1 := by rw [tick_eq_ok_iff.1 htick]
    rw [ih hrest, hmid]
    omega
  | transfer hpart _ ih =>
    obtain ⟨a, mid, hmid, hrest⟩ := bind_eq_ok_iff.1 h
    obtain ⟨-, hticks, -⟩ := (hpart.transfer.framed m).ok ⟨rfl, rfl, rfl⟩ hmid
    rw [ih a hrest, hticks]

/-- Microcode that fails has not come to its last tick; a `HALT` has none. -/
theorem ticks_lt (hc : Sequence i spent left l c) {t : Trap} (h : c m = .error t m')
    (ht : t ≠ .halt) : m'.ticks < m.ticks + left := by
  induction hc generalizing m with
  | finish => cases h
  | jump _ =>
    obtain ⟨_, -, -, rfl⟩ := jump_eq_error_iff.1 h
    exact Nat.lt_succ_self _
  | halt =>
    cases h
    exact absurd rfl ht
  | unsupported _ =>
    cases h
    exact Nat.lt_add_of_pos_right (Nat.succ_pos _)
  | tick _ ih =>
    have hrest := ih (m := { m with ticks := m.ticks + 1 }) h
    simp only at hrest
    omega
  | transfer hpart _ ih =>
    rcases bind_eq_error_iff.1 h with hfail | ⟨a, mid, hmid, hrest⟩
    · obtain ⟨-, hticks, -⟩ := (hpart.transfer.framed m).error ⟨rfl, rfl, rfl⟩ hfail
      rw [hticks]
      exact Nat.lt_add_of_pos_right (Nat.succ_pos _)
    · obtain ⟨-, hticks, -⟩ := (hpart.transfer.framed m).ok ⟨rfl, rfl, rfl⟩ hmid
      rw [← hticks]
      exact ih a hrest

end Sequence

/-! ## Stops

An instruction that finds the input empty stops where it reads memory, and has then spent
the ticks that come before:

    READ_DIR     latch, move the head ──tick──▶ READ, push ..
    READ_NDR     latch, READ, push ──tick──▶ latch, READ, push ──tick──▶ ..
    WRITE_NDR    latch, READ, push ──tick──▶ .. -/

/-- The transfer was a read, and found the input empty. -/
structure Exhausts (i : Instruction) (spent : Nat) (l : Latches) (m : Machine) : Prop where
  reads : spent ∈ i.opcode.readTicks
  onTop : i.opcode ≠ .readDirect → l.onTop = true
  address : m.memory.address = 0
  input : m.memory.input = []

/-- A transfer fails with a fault, or it finds the input empty and changes nothing. -/
theorem Part.stop {c : Microcode α} (hc : Part i spent l l' c) {t : Trap}
    (h : c m = .error t m') :
    (∃ f, t = .fault f) ∨ t = .inputExhausted ∧ m' = m ∧ Exhausts i spent l m := by
  have hdatapath {act : Datapath.Action α} (h : datapath act m = .error t m') :
      ∃ f, t = .fault f := by
    obtain ⟨f, -, -, rfl, -⟩ := datapath_eq_error_iff.1 h
    exact ⟨f, rfl⟩
  have hinspect {look : Machine → Except Fault α} (h : inspect look m = .error t m') :
      ∃ f, t = .fault f := by
    obtain ⟨f, -, rfl, -⟩ := inspect_eq_error_iff.1 h
    exact ⟨f, rfl⟩
  cases hc with
  | literal _ => exact .inl (hinspect h)
  | top _ => exact .inl (hinspect h)
  | topIncremented _ => exact .inl (hinspect h)
  | push _ => exact .inl (hdatapath h)
  | lower _ _ => exact .inl (hdatapath h)
  | popTruth => exact .inl (hdatapath h)
  | latchAlu _ => exact .inl (hdatapath h)
  | accumulator _ => cases h
  | latchAddress _ =>
    rcases bind_eq_error_iff.1 h with htop | ⟨a, mid, -, hlatch⟩
    · obtain ⟨f, -, rfl, -⟩ := inspect_eq_error_iff.1 htop
      exact .inl ⟨f, rfl⟩
    · obtain ⟨_, hfail, -⟩ := memory_eq_error_iff.1 hlatch
      exact .inl (Memory.fault_of_latch hfail)
  | read _ hspent htop =>
    obtain ⟨mem, hread, rfl⟩ := memory_eq_error_iff.1 h
    rcases Memory.stop_of_read hread with hfault | ⟨rfl, haddress, hinput⟩
    · exact .inl hfault
    · refine .inr ⟨rfl, ?_, hspent, htop, haddress, hinput⟩
      rw [Memory.eq_of_read_error hread]
  | write _ _ =>
    obtain ⟨_, hwrite, -⟩ := memory_eq_error_iff.1 h
    exact .inl (Memory.fault_of_write hwrite)

/-- Microcode that stops without a fault is that of `HALT`, or finds the input empty after
ticks that its opcode lists. -/
theorem Sequence.stop {c : Microcode Unit} (hc : Sequence i spent left l c) {t : Trap}
    (h : c m = .error t m') :
    (∃ f, t = .fault f) ∨ (t = .halt ∧ left = 0 ∧ m' = m) ∨
      t = .inputExhausted ∧ ∃ k ∈ i.opcode.readTicks, m'.ticks + spent = m.ticks + k := by
  induction hc generalizing m with
  | finish => cases h
  | jump _ =>
    obtain ⟨f, -, rfl, -⟩ := jump_eq_error_iff.1 h
    exact .inl ⟨f, rfl⟩
  | halt =>
    cases h
    exact .inr (.inl ⟨rfl, rfl, rfl⟩)
  | unsupported _ =>
    cases h
    exact .inl ⟨_, rfl⟩
  | tick _ ih =>
    rcases ih (m := { m with ticks := m.ticks + 1 }) h with hfault | ⟨-, hleft, -⟩ |
      ⟨rfl, k, hk, hticks⟩
    · exact .inl hfault
    · cases hleft
    · refine .inr (.inr ⟨rfl, k, hk, ?_⟩)
      simp only at hticks
      omega
  | @transfer α spent left l l' c f hpart _ ih =>
    rcases bind_eq_error_iff.1 h with hfail | ⟨a, mid, hmid, hrest⟩
    · rcases hpart.stop hfail with hfault | ⟨rfl, rfl, hread⟩
      · exact .inl hfault
      · exact .inr (.inr ⟨rfl, spent, hread.reads, rfl⟩)
    · obtain ⟨-, hticks, -⟩ := (hpart.transfer.framed m).ok ⟨rfl, rfl, rfl⟩ hmid
      have hstop := ih a hrest
      rw [hticks] at hstop
      rcases hstop with hfault | ⟨-, hleft, -⟩ | hempty
      · exact .inl hfault
      · cases hleft
      · exact .inr (.inr hempty)

end Microcode

end Microstack
