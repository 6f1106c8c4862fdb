/-
# `Microstack.Proofs.Faults` — which faults an instruction can raise

Every transfer of the microcode has its own faults, but not every transfer can come to all of
them where it stands.  What is left is a table, `Fault.RaisedBy`:

    StackBounds           one more word than fits: PUSH DUP OVER READ_NDR WRITE_NDR;
                          no word to drop: DROP
    StackUnderflow        an offset that is no word's
    AddressOutOfRange     an address that is no cell's
    ProgramTextAccess     an address in the program text
    MissingArgument       PUSH JMP JNT
    InvalidArgument       JMP JNT
    UnsupportedOpcode     MINUS DIV PRINT
    DivisionByZero        MOD
    NegativeExponent      POW
    Overflow              the operation of an arithmetic opcode, or the increment of a
                          pointer in a memory that has an address no word can count
    StackOffset, IllegalHeadDelta, and NoInstruction but for the fetch: none

Two things are behind it.  An instruction that takes words off the stack before it pushes
others has looked at them first, so neither the one nor the other can fail.  And a pointer is
only moved on after it has served as an address: the greatest word would have to lie below
the program text.

The microcode is gone through with the words on the stack and the address register in view
(`Machine.Shows`); one lemma for each transfer says which of its faults are possible and what
is in view once it completes.
-/
import Microstack.Proofs.Arithmetic
import Microstack.Proofs.Effect
import Microstack.Proofs.Location

namespace Microstack

/-! ## The table -/

/-- The fault is one that an instruction with this opcode can raise, in a machine whose program
text begins at `start`. -/
def Fault.RaisedBy (config : Machine.Config) (start : Nat) (op : Opcode) : Fault → Prop
  | addressOutOfRange address size => size = config.memorySize ∧
      (address < 0 ∨ config.memorySize ≤ address) ∧
      op ∈ [.readDirect, .readIndirect, .writeDirect, .writeIndirect]
  | programTextAccess address => start ≤ address ∧ address < config.memorySize ∧
      op ∈ [.readDirect, .readIndirect, .writeDirect, .writeIndirect]
  | writeToInputPort | readFromOutputPort =>
      op ∈ [.readDirect, .readIndirect, .writeDirect, .writeIndirect]
  | stackUnderflow offset head => head ≤ offset
  | stackBounds head delta capacity => capacity = config.stackCapacity ∧
      (head + 1 = capacity ∧ delta = 1 ∧
          op ∈ [.push, .dup, .dupUnder, .readIndirect, .writeIndirect] ∨
        head = 0 ∧ delta = -1 ∧ op = .drop)
  | missingArgument opcode => opcode = op ∧ op ∈ [.push, .jmp, .jnt]
  | invalidArgument opcode _ => opcode = op ∧ op ∈ [.jmp, .jnt]
  | unsupportedOpcode opcode => opcode = op ∧ op ∈ [.minus, .div, .print]
  | divisionByZero alu => alu = .mod ∧ op = .mod
  | negativeExponent exponent => exponent.toInt < 0 ∧ op = .pow
  | overflow alu =>
      AluOp.ofOpcode? op = some alu ∧ alu ≠ .lt ∧ alu ≠ .notTrue ∨
        alu = .increment ∧ op ∈ [.readIndirect, .writeIndirect] ∧ 2 ^ 31 < config.memorySize
  | stackOffset _ _ | illegalHeadDelta _ | noInstruction _ _ => False

/-! ## How the parts of the machine fail -/

theorem AluOp.fault_of_apply {op : AluOp} {a b : Word} {f : Fault} (h : op.apply a b = .error f) :
    (f = .divisionByZero .mod ∧ op = .mod) ∨
      (f = .negativeExponent a ∧ a.toInt < 0 ∧ op = .pow) ∨
      (f = .overflow op ∧ op ≠ .lt ∧ op ≠ .notTrue) := by
  have hcomputes := op.computes_apply a b
  rw [h] at hcomputes
  cases hcomputes with
  | divisionByZero hop _ => exact .inl ⟨by rw [hop], hop⟩
  | negativeExponent hop ha => exact .inr (.inl ⟨rfl, ha, hop⟩)
  | overflow _ =>
    refine .inr (.inr ⟨rfl, ?_, ?_⟩)
    · rintro rfl
      cases h
    · rintro rfl
      cases h

theorem AluOp.opcode_of_mod {op : Opcode} (h : ofOpcode? op = some mod) : op = .mod := by
  revert h
  cases op <;> decide

theorem AluOp.opcode_of_pow {op : Opcode} (h : ofOpcode? op = some pow) : op = .pow := by
  revert h
  cases op <;> decide

namespace Datapath

variable {d d' : Datapath} {f : Fault}

theorem fault_of_result {op : AluOp} (h : d.result op = .error f) :
    (∃ offset, d.head ≤ offset ∧ f = .stackUnderflow offset d.head) ∨
      ∃ a b, d.Operands op a b ∧ op.apply a b = .error f := by
  by_cases henough : op.arity ≤ d.head
  · obtain ⟨a, b, hoperands⟩ := exists_operands henough
    rw [result_eq_apply hoperands] at h
    exact .inr ⟨a, b, hoperands, h⟩
  · obtain ⟨offset, hle, hshort⟩ := result_of_short (Nat.lt_of_not_le henough)
    rw [h] at hshort
    exact .inl ⟨offset, hle, Except.error.inj hshort⟩

theorem fault_of_popTruth (h : d.Fits) (hfail : popTruth d = .error f d') :
    f = .stackUnderflow 0 d.head ∧ d.head = 0 := by
  by_cases hempty : d.head = 0
  · have htop : d.top 0 = .error (.stackUnderflow 0 d.head) :=
      top_of_le (by decide) (Nat.le_of_eq hempty)
    have hlatch : latch .notTrue d = .error (.stackUnderflow 0 d.head) d := by
      refine latch_eq_error_iff.2 ⟨?_, rfl⟩
      rw [result, htop]
      rfl
    have hpop : popTruth d = .error (.stackUnderflow 0 d.head) d := bind_of_error hlatch
    rw [hpop] at hfail
    cases hfail
    exact ⟨rfl, hempty⟩
  · obtain ⟨ws, xs, hw, hlen⟩ := h.exists_words (k := 1) (by omega)
    obtain ⟨b, rfl⟩ := List.length_eq_one_iff.1 hlen
    have hok := h.popTruth_eq_ok_iff.2 ⟨ws, b, hw, rfl, rfl⟩
    cases hfail.symm.trans hok

end Datapath

namespace Memory

variable {m m' : Memory} {n : Nat} {program : List Instruction} {f : Fault}

/-- The faults of reading and of writing that they have in common. -/
def Inaccessible (m : Memory) (f : Fault) : Prop :=
  m.size ≤ m.address ∧ f = .addressOutOfRange m.address m.size ∨
    m.programStart ≤ m.address ∧ m.address < m.size ∧ f = .programTextAccess m.address

theorem inaccessible_of_dataIndex (hport : 2 ≤ m.address) (htext : m.programStart ≤ m.address)
    (h : m.dataIndex = .error f) : m.Inaccessible f := by
  rw [dataIndex_text hport htext] at h
  split at h
  · next hsize =>
    cases h
    exact .inl ⟨hsize, rfl⟩
  · next hsize =>
    cases h
    exact .inr ⟨htext, Nat.lt_of_not_le hsize, rfl⟩

theorem Loaded.fault_of_read (h : m.Loaded n program) (hfail : read m = .error (.fault f) m') :
    f = .readFromOutputPort ∨ m.Inaccessible f := by
  rcases m.region with h0 | h1 | ⟨hport, hlt⟩ | ⟨hport, htext⟩
  · cases hin : m.input with
    | nil => cases (read_input_empty h0 hin).symm.trans hfail
    | cons c rest => cases (read_input h0 hin).symm.trans hfail
  · cases (read_output h1).symm.trans hfail
    exact .inl rfl
  · obtain ⟨w, hw⟩ := h.exists_peek? hlt
    cases (h.read_data hport hlt hw).symm.trans hfail
  · have hindex := dataIndex_text hport htext
    cases (read_text hport htext hindex).symm.trans hfail
    exact .inr (inaccessible_of_dataIndex hport htext hindex)

theorem Loaded.fault_of_write (h : m.Loaded n program) {w : Word}
    (hfail : write w m = .error (.fault f) m') : f = .writeToInputPort ∨ m.Inaccessible f := by
  rcases m.region with h0 | h1 | ⟨hport, hlt⟩ | ⟨hport, htext⟩
  · cases (write_input h0).symm.trans hfail
    exact .inl rfl
  · cases (write_output h1).symm.trans hfail
  · cases (h.write_data hport hlt).symm.trans hfail
  · have hindex := dataIndex_text hport htext
    cases (write_text hport htext hindex).symm.trans hfail
    exact .inr (inaccessible_of_dataIndex hport htext hindex)

end Memory

/-! ## What is in view -/

namespace Machine

/-- The machine has the invariant, with these words on its stack and this address latched. -/
structure Shows (program : Program) (config : Config) (ws : List Word) (address : Nat)
    (m : Machine) : Prop where
  invariant : m.Invariant program config
  words : m.datapath.words = ws
  address : m.memory.address = address

namespace Shows

variable {program : Program} {config : Config} {ws : List Word} {a : Nat} {m m' : Machine}

theorem head (h : m.Shows program config ws a) : m.datapath.head = ws.length := by
  rw [← h.words, h.invariant.fits.length_words]

theorem length_lt (h : m.Shows program config ws a) : ws.length < config.stackCapacity := by
  rw [← h.invariant.datapath.1]
  exact h.invariant.fits.length_lt h.words

theorem start_eq (h : m.Shows program config ws a) :
    m.memory.programStart = config.memorySize - program.length := by
  have hlength := h.invariant.memory.start_add_length
  have hsize := h.invariant.memory.size_eq
  unfold Program.length
  omega

theorem of_transfer {α : Type} {c : Microcode α} (ht : Microcode.Transfer c) {x : α}
    (hinvariant : m.Invariant program config) (hc : c m = .ok x m')
    (hwords : m'.datapath.words = ws) (haddress : m'.memory.address = a) :
    m'.Shows program config ws a :=
  ⟨((Invariant.transfers program config).transfer ht).ok hinvariant hc, hwords, haddress⟩

end Shows

end Machine

/-! ## Microcode whose faults are in the table -/

/-- Every fault of the microcode, from this machine, is one of the table. -/
def Lawful {α : Type} (program : Program) (config : Machine.Config) (op : Opcode)
    (c : Microcode α) (m : Machine) : Prop :=
  ∀ f m', c m = .error (.fault f) m' →
    f.RaisedBy config (config.memorySize - program.length) op

namespace Lawful

open Microcode

variable {program : Program} {config : Machine.Config} {op : Opcode} {m : Machine}
  {ws : List Word} {a : Nat} {f : Unit → Microcode Unit}

theorem bind {α β : Type} {c : Microcode α} {f : α → Microcode β}
    (hc : Lawful program config op c m)
    (hf : ∀ x m', c m = .ok x m' → Lawful program config op (f x) m') :
    Lawful program config op (c >>= f) m := by
  intro fault m' h
  rcases bind_eq_error_iff.1 h with hfail | ⟨x, mid, hmid, hrest⟩
  · exact hc fault m' hfail
  · exact hf x mid hmid fault m' hrest

theorem of_ok {α : Type} {c : Microcode α} {x : α} {m' : Machine} (h : c m = .ok x m') :
    Lawful program config op c m := by
  intro fault mid hfail
  cases h.symm.trans hfail

theorem advance : Lawful program config op (advance >>= fun _ => tick) m := of_ok rfl

theorem tick (h : m.Shows program config ws a)
    (hf : ∀ m', m'.Shows program config ws a → Lawful program config op (f ()) m') :
    Lawful program config op (Microcode.tick >>= f) m := by
  refine bind (of_ok rfl) fun _ m' hok => ?_
  cases hok
  exact hf _ ⟨⟨h.invariant.datapath, h.invariant.memory⟩, h.words, h.address⟩

/-! Looks at the stack. -/

theorem look {offset : Nat} (hdeep : offset ≤ Datapath.deepest) :
    Lawful program config op (Microcode.top offset) m := by
  intro fault m' hfail
  obtain ⟨g, htop, heq, -⟩ := inspect_eq_error_iff.1 hfail
  cases heq
  have hle : m.datapath.head ≤ offset := by
    refine Nat.le_of_not_lt fun hlt => ?_
    obtain ⟨x, hx⟩ := Datapath.top_of_lt hdeep hlt
    cases htop.symm.trans hx
  cases (Datapath.top_of_le hdeep hle).symm.trans htop
  exact hle

theorem top {offset : Nat} {f : Word → Microcode Unit} (h : m.Shows program config ws a)
    (hdeep : offset ≤ Datapath.deepest)
    (hf : ∀ w x xs, ws = w ++ x :: xs → xs.length = offset →
      Lawful program config op (f x) m) :
    Lawful program config op (Microcode.top offset >>= f) m := by
  refine bind (look hdeep) fun x m' hok => ?_
  obtain ⟨htop, rfl⟩ := inspect_eq_ok_iff.1 hok
  obtain ⟨w, xs, hw, hlen⟩ := h.invariant.fits.words_of_top htop
  exact hf w x xs (h.words.symm.trans hw) hlen

theorem topWord (w : List Word) (x : Word) (xs : List Word) {f : Word → Microcode Unit}
    (h : m.Shows program config (w ++ x :: xs) a) (hdeep : xs.length ≤ 3)
    (hf : Lawful program config op (f x) m) :
    Lawful program config op (Microcode.top xs.length >>= f) m := by
  refine top h hdeep fun w' y ys hw hlen => ?_
  obtain ⟨-, hcons⟩ := List.append_inj' hw (by simp [hlen])
  cases hcons
  exact hf

/-! Changes of the stack. -/

theorem drop (xs : List Word) {w : List Word} (h : m.Shows program config (w ++ xs) a)
    (hk : 1 ≤ xs.length ∧ xs.length ≤ 3)
    (hf : ∀ m', m'.Shows program config w a → Lawful program config op (f ()) m') :
    Lawful program config op (adjustHead (-xs.length) >>= f) m := by
  have hhead := h.head
  rw [List.length_append] at hhead
  have hok := (adjustHead_eq_ok_iff hk (u := ())).2
    ⟨by omega, h.invariant.fits.popped xs.length, rfl⟩
  refine bind (of_ok hok) fun _ m' hdrop => ?_
  cases hok.symm.trans hdrop
  exact hf _ (.of_transfer (.adjustHead _) h.invariant hok
    (h.invariant.fits.words_popped h.words) h.address)

/-- A push for which there is room, or by an opcode that may find the stack full. -/
theorem push {x : Word} (h : m.Shows program config ws a)
    (hroom : ws.length + 1 < config.stackCapacity ∨
      op ∈ [.push, .dup, .dupUnder, .readIndirect, .writeIndirect])
    (hf : ∀ m', m'.Shows program config (ws ++ [x]) a → Lawful program config op (f ()) m') :
    Lawful program config op (Microcode.push x >>= f) m := by
  have hhead := h.head
  have hlt := h.length_lt
  have hcap := h.invariant.datapath.1
  refine bind ?_ fun _ m' hok => ?_
  · intro fault m' hfail
    obtain ⟨g, d, hpush, heq, -⟩ := datapath_eq_error_iff.1 hfail
    cases heq
    have hfull : m.datapath.capacity ≤ m.datapath.head + 1 := by
      refine Nat.le_of_not_lt fun hroom => ?_
      cases hpush.symm.trans ((Datapath.push_eq_ok_iff (u := ())).2 ⟨hroom, rfl⟩)
    cases (Datapath.push_of_full x hfull).symm.trans hpush
    rcases hroom with hroom | hop
    · omega
    · exact ⟨hcap, .inl ⟨by omega, rfl, hop⟩⟩
  · obtain ⟨-, rfl⟩ := push_eq_ok_iff.1 hok
    refine hf _ (.of_transfer (.push x) h.invariant hok ?_ h.address)
    exact (h.invariant.fits.words_pushed x).trans (by rw [h.words])

theorem finishWith (xs : List Word) (h : m.Shows program config ws a)
    (hroom : ws.length + xs.length < config.stackCapacity) :
    Lawful program config op (Microstack.finishWith xs) m := by
  induction xs generalizing ws m with
  | nil => exact advance
  | cons x xs ih =>
    rw [List.length_cons] at hroom
    refine push h (.inl (by omega)) fun m' h' => ih h' ?_
    rw [List.length_append, List.length_singleton]
    omega

/-! Memory. -/

theorem latchAddress {offset : Nat} (h : m.Shows program config ws a)
    (hop : op ∈ [.readDirect, .readIndirect, .writeDirect, .writeIndirect])
    (hdeep : offset ≤ Datapath.deepest)
    (hf : ∀ w p xs m', ws = w ++ p :: xs → xs.length = offset →
      m'.Shows program config ws p.toInt.toNat → Lawful program config op (f ()) m') :
    Lawful program config op (Microcode.latchAddress offset >>= f) m := by
  have hsize := h.invariant.memory.size_eq
  refine bind ?_ fun _ m' hok => ?_
  · refine bind (look hdeep) fun p m' hp => ?_
    obtain ⟨-, rfl⟩ := inspect_eq_ok_iff.1 hp
    intro fault m' hfail
    obtain ⟨mem, hlatch, -⟩ := memory_eq_error_iff.1 hfail
    unfold Memory.latch at hlatch
    split at hlatch
    · cases hlatch
    · next hout =>
      cases hlatch
      exact ⟨hsize, by omega, hop⟩
  · obtain ⟨p, hp, -, -, rfl⟩ := latchAddress_eq_ok_iff.1 hok
    obtain ⟨w, xs, hw, hlen⟩ := h.invariant.fits.words_of_top hp
    exact hf w p xs _ (h.words.symm.trans hw) hlen
      (.of_transfer (.latchAddress offset) h.invariant hok h.words rfl)

theorem latchWord (w : List Word) (p : Word) (xs : List Word)
    (h : m.Shows program config (w ++ p :: xs) a)
    (hop : op ∈ [.readDirect, .readIndirect, .writeDirect, .writeIndirect])
    (hdeep : xs.length ≤ 3)
    (hf : ∀ m', m'.Shows program config (w ++ p :: xs) p.toInt.toNat →
      Lawful program config op (f ()) m') :
    Lawful program config op (Microcode.latchAddress xs.length >>= f) m := by
  refine latchAddress h hop hdeep fun w' q ys m' hw hlen h' => ?_
  obtain ⟨-, hcons⟩ := List.append_inj' hw (by simp [hlen])
  cases hcons
  exact hf m' h'

theorem of_inaccessible (h : m.Shows program config ws a)
    (hop : op ∈ [.readDirect, .readIndirect, .writeDirect, .writeIndirect]) {fault : Fault}
    (hfault : m.memory.Inaccessible fault) :
    fault.RaisedBy config (config.memorySize - program.length) op := by
  have hsize := h.invariant.memory.size_eq
  rw [← h.start_eq]
  rcases hfault with ⟨hle, rfl⟩ | ⟨hstart, hlt, rfl⟩
  · exact ⟨hsize, .inr (by omega), hop⟩
  · exact ⟨hstart, by omega, hop⟩

theorem read {f : Word → Microcode Unit} (h : m.Shows program config ws a)
    (hop : op ∈ [.readDirect, .readIndirect, .writeDirect, .writeIndirect])
    (hf : a < config.memorySize - program.length → ∀ x m', m'.Shows program config ws a →
      Lawful program config op (f x) m') :
    Lawful program config op (Microcode.read >>= f) m := by
  refine bind ?_ fun x m' hok => ?_
  · intro fault m' hfail
    obtain ⟨mem, hread, -⟩ := memory_eq_error_iff.1 hfail
    rcases h.invariant.memory.fault_of_read hread with rfl | hfault
    · exact hop
    · exact of_inaccessible h hop hfault
  · obtain ⟨mem, hread, rfl⟩ := memory_eq_ok_iff.1 hok
    have hstart := h.start_eq
    have htwo := h.invariant.memory.two_lt
    have haddress := h.address
    rcases h.invariant.memory.read_eq_ok_iff.1 hread with
      ⟨h0, c, rest, -, -, rfl⟩ | ⟨-, hlt, -, rfl⟩
    · exact hf (by omega) x _ (.of_transfer .read h.invariant hok h.words h.address)
    · exact hf (by omega) x _ (.of_transfer .read h.invariant hok h.words h.address)

theorem write {x : Word} (h : m.Shows program config ws a)
    (hop : op ∈ [.readDirect, .readIndirect, .writeDirect, .writeIndirect])
    (hf : a < config.memorySize - program.length → ∀ m', m'.Shows program config ws a →
      Lawful program config op (f ()) m') :
    Lawful program config op (Microcode.write x >>= f) m := by
  refine bind ?_ fun _ m' hok => ?_
  · intro fault m' hfail
    obtain ⟨mem, hwrite, -⟩ := memory_eq_error_iff.1 hfail
    rcases h.invariant.memory.fault_of_write hwrite with rfl | hfault
    · exact hop
    · exact of_inaccessible h hop hfault
  · obtain ⟨mem, hwrite, rfl⟩ := memory_eq_ok_iff.1 hok
    have hstart := h.start_eq
    have htwo := h.invariant.memory.two_lt
    have haddress := h.address
    rcases h.invariant.memory.write_eq_ok_iff.1 hwrite with ⟨h1, rfl⟩ | ⟨-, hlt, rfl⟩
    · exact hf (by omega) _ (.of_transfer (.write x) h.invariant hok h.words h.address)
    · exact hf (by omega) _ (.of_transfer (.write x) h.invariant hok h.words h.address)

/-! The arithmetic unit. -/

/-- The unit fails on the stack or as its opcode says; afterwards its operands are known to be
there. -/
theorem latchAlu {alu : AluOp} (h : m.Shows program config ws a)
    (halu : AluOp.ofOpcode? op = some alu)
    (hf : alu.arity ≤ ws.length → ∀ m', m'.Shows program config ws a →
      Lawful program config op (f ()) m') :
    Lawful program config op (Microcode.latchAlu alu >>= f) m := by
  have hhead := h.head
  refine bind ?_ fun _ m' hok => ?_
  · intro fault m' hfail
    obtain ⟨g, d, hlatch, heq, -⟩ := datapath_eq_error_iff.1 hfail
    cases heq
    obtain ⟨hresult, -⟩ := Datapath.latch_eq_error_iff.1 hlatch
    rcases Datapath.fault_of_result hresult with ⟨offset, hle, rfl⟩ | ⟨x, y, -, happly⟩
    · exact hle
    · rcases AluOp.fault_of_apply happly with ⟨rfl, rfl⟩ | ⟨rfl, hx, rfl⟩ | ⟨rfl, hlt, hnot⟩
      · exact ⟨rfl, AluOp.opcode_of_mod halu⟩
      · exact ⟨hx, AluOp.opcode_of_pow halu⟩
      · exact .inl ⟨halu, hlt, hnot⟩
  · obtain ⟨w, operands, r, hw, hvalue, rfl⟩ := (latchAlu_eq_ok_iff h.invariant.fits).1 hok
    have hlen := AluOp.length_of_value? hvalue
    rw [h.words] at hw
    refine hf ?_ _ (.of_transfer (.latchAlu alu) h.invariant hok h.words h.address)
    rw [hw, List.length_append]
    omega

theorem of_increment {q : Word} {fault : Fault} (hop : op ∈ [.readIndirect, .writeIndirect])
    (hq : q.toInt.toNat < config.memorySize - program.length) (htext : 0 < program.length)
    (hfault : AluOp.checked .increment (Word.ofInt? (q.toInt + 1)) = .error fault) :
    fault.RaisedBy config (config.memorySize - program.length) op := by
  cases hvalue : Word.ofInt? (q.toInt + 1) with
  | some r =>
    rw [hvalue] at hfault
    cases hfault
  | none =>
    rw [hvalue] at hfault
    cases hfault
    have hrange := Word.ofInt?_eq_none_iff.1 hvalue
    have hmin := q.min_le
    have hmax := q.le_max
    exact .inr ⟨rfl, hop, by omega⟩

theorem increment {w : List Word} {q p : Word} (h : m.Shows program config (w ++ [q, p]) a)
    (hop : op ∈ [.readIndirect, .writeIndirect])
    (hq : q.toInt.toNat < config.memorySize - program.length) (htext : 0 < program.length)
    (hf : ∀ m', m'.Shows program config (w ++ [q, p]) a → Lawful program config op (f ()) m') :
    Lawful program config op (Microcode.latchAlu .increment >>= f) m := by
  refine bind ?_ fun _ m' hok => ?_
  · intro fault m' hfail
    obtain ⟨g, d, hlatch, heq, -⟩ := datapath_eq_error_iff.1 hfail
    cases heq
    obtain ⟨hresult, -⟩ := Datapath.latch_eq_error_iff.1 hlatch
    have htop : m.datapath.top 1 = .ok q := h.invariant.fits.top_one_eq_ok_iff.2 ⟨w, p, h.words⟩
    rw [Datapath.result, htop] at hresult
    exact of_increment hop hq htext hresult
  · obtain ⟨w, operands, r, -, -, rfl⟩ := (latchAlu_eq_ok_iff h.invariant.fits).1 hok
    exact hf _ (.of_transfer (.latchAlu _) h.invariant hok h.words h.address)

theorem topIncremented {w : List Word} {q : Word} {f : Word → Microcode Unit}
    (h : m.Shows program config (w ++ [q]) a) (hop : op ∈ [.readIndirect, .writeIndirect])
    (hq : q.toInt.toNat < config.memorySize - program.length) (htext : 0 < program.length)
    (hf : ∀ x, Lawful program config op (f x) m) :
    Lawful program config op ((inspect fun m => m.datapath.topIncremented 0) >>= f) m := by
  have htop : m.datapath.top 0 = .ok q := h.invariant.fits.top_zero_eq_ok_iff.2 ⟨w, h.words⟩
  refine bind ?_ fun x m' hok => ?_
  · intro fault m' hfail
    obtain ⟨g, hlook, heq, -⟩ := inspect_eq_error_iff.1 hfail
    cases heq
    rw [Datapath.topIncremented, htop] at hlook
    exact of_increment hop hq htext hlook
  · obtain ⟨-, rfl⟩ := inspect_eq_ok_iff.1 hok
    exact hf x

/-! Looks at the argument of the instruction. -/

variable {i : Instruction}

theorem jump (hi : i.opcode = op) (hop : op ∈ [.jmp, .jnt]) :
    Lawful program config op (Microcode.jump i) m := by
  have htakes : op ∈ [.push, .jmp, .jnt] := List.mem_cons_of_mem _ hop
  intro fault m' hfail
  obtain ⟨g, htarget, heq, -⟩ := jump_eq_error_iff.1 hfail
  cases heq
  unfold Instruction.target at htarget
  split at htarget
  · cases htarget
    exact ⟨hi, htakes⟩
  · split at htarget
    · cases htarget
    · cases htarget
      exact ⟨hi, hop⟩
  · cases htarget
    exact ⟨hi, hop⟩

theorem literal {f : Word → Microcode Unit} (hi : i.opcode = op) (hop : op ∈ [.push, .jmp, .jnt])
    (hf : ∀ x, Lawful program config op (f x) m) :
    Lawful program config op ((inspect fun _ => i.literal) >>= f) m := by
  refine bind ?_ fun x m' hok => ?_
  · intro fault m' hfail
    obtain ⟨g, hliteral, heq, -⟩ := inspect_eq_error_iff.1 hfail
    cases heq
    unfold Instruction.literal at hliteral
    split at hliteral
    · cases hliteral
      exact ⟨hi, hop⟩
    · cases hliteral
  · obtain ⟨-, rfl⟩ := inspect_eq_ok_iff.1 hok
    exact hf x

/-! ## The microcode of the opcodes -/

theorem readDirect (h : m.Shows program config ws a) :
    Lawful program config .readDirect Microcode.readDirect m := by
  refine latchAddress h (by decide) (by decide) fun w p xs m hw hlen h => ?_
  obtain rfl := List.length_eq_zero_iff.1 hlen
  subst hw
  have hroom := h.length_lt
  refine drop [p] h (by simp) fun m h => tick h fun m h => ?_
  refine read h (by decide) fun _ v m h => finishWith [v] h ?_
  simpa using hroom

theorem writeDirect (h : m.Shows program config ws a) :
    Lawful program config .writeDirect Microcode.writeDirect m := by
  refine latchAddress h (by decide) (by decide) fun _ _ _ m _ _ h => tick h fun m h => ?_
  refine top h (by decide) fun w x xs hw hlen => ?_
  obtain ⟨y, rfl⟩ := List.length_eq_one_iff.1 hlen
  subst hw
  refine write h (by decide) fun _ m h => drop [x, y] h (by simp) fun m h => ?_
  exact advance

/-- Both opcodes that go through a pointer begin with it: the pointer is pushed, and the word
it holds is latched. -/
theorem pointer (h : m.Shows program config ws a) (hop : op ∈ [.readIndirect, .writeIndirect])
    (hf : ∀ w p q m', m'.Shows program config (w ++ [p, q]) q.toInt.toNat →
      Lawful program config op (f ()) m') :
    Lawful program config op (Microcode.latchAddress 0 >>= fun _ => Microcode.read >>= fun q =>
      Microcode.push q >>= fun _ => Microcode.tick >>= fun _ =>
      Microcode.latchAddress 0 >>= f) m := by
  have hmemory : op ∈ [.readDirect, .readIndirect, .writeDirect, .writeIndirect] := by
    rcases List.mem_pair.1 hop with rfl | rfl <;> decide
  have hgrows : op ∈ [.push, .dup, .dupUnder, .readIndirect, .writeIndirect] := by
    rcases List.mem_pair.1 hop with rfl | rfl <;> decide
  refine latchAddress h hmemory (by decide) fun w p xs m hw hlen h => ?_
  obtain rfl := List.length_eq_zero_iff.1 hlen
  subst hw
  refine read h hmemory fun _ q m h => push h (.inr hgrows) fun m h => tick h fun m h => ?_
  rw [List.append_assoc] at h
  refine latchWord (w ++ [p]) q [] (by simpa using h) hmemory (by decide)
    fun m h => hf w p q m ?_
  simpa using h

theorem readIndirect (h : m.Shows program config ws a) (htext : 0 < program.length) :
    Lawful program config .readIndirect Microcode.readIndirect m := by
  refine pointer h (by decide) fun w p q m h => ?_
  refine read h (by decide) fun hq v m h => push h (.inr (by decide)) fun m h =>
    tick h fun m h => ?_
  rw [List.append_assoc] at h
  -- The value changes places with the pointer below it.
  refine topWord (w ++ [p, q]) v [] (by simpa using h) (by simp) ?_
  refine topWord (w ++ [p]) q [v] (by simpa using h) (by simp) ?_
  refine topWord w p [q, v] h (by simp) ?_
  refine drop [p, q, v] h (by simp) fun m h => ?_
  refine push h (.inr (by decide)) fun m h => push h (.inr (by decide)) fun m h =>
    push h (.inr (by decide)) fun m h => tick h fun m h => ?_
  rw [List.append_assoc, List.append_assoc] at h
  refine latchWord (w ++ [v, q]) p [] (by simpa using h) (by decide) (by simp)
    fun m h => tick h fun m h => ?_
  rw [List.append_assoc] at h
  refine increment (w := w ++ [v]) (q := q) (p := p) (by simpa using h) (by decide) hq htext
    fun m h => ?_
  refine bind (of_ok rfl) fun next m' hok => ?_
  obtain ⟨-, rfl⟩ := accumulator_eq_ok_iff.1 hok
  refine write h (by decide) fun _ m h => drop [q, p] h (by simp) fun m h => ?_
  exact advance

theorem writeIndirect (h : m.Shows program config ws a) (htext : 0 < program.length) :
    Lawful program config .writeIndirect Microcode.writeIndirect m := by
  refine pointer h (by decide) fun w p q m h => tick h fun m h => ?_
  refine top h (by decide) fun w' x xs hw hlen => ?_
  obtain ⟨y, z, rfl⟩ := List.length_eq_two.1 hlen
  refine write h (by decide) fun hq m h => tick h fun m h => ?_
  refine latchWord w p [q] h (by decide) (by simp)
    fun m h => tick h fun m h => ?_
  refine topIncremented (w := w ++ [p]) (q := q) (by simpa using h) (by decide) hq htext
    fun next => ?_
  rw [hw] at h
  refine write h (by decide) fun _ m h => drop [x, y, z] h (by simp) fun m h => ?_
  exact advance

theorem arithmetic {alu : AluOp} (h : m.Shows program config ws a)
    (halu : AluOp.ofOpcode? op = some alu) :
    Lawful program config op (Microcode.arithmetic alu) m := by
  have hpos := alu.arity_bounds
  refine latchAlu h halu fun hle m h => ?_
  rw [← h.head] at hle
  obtain ⟨w, xs, hw, hlen⟩ := h.invariant.fits.exists_words hle
  rw [h.words] at hw
  subst hw
  have hroom := h.length_lt
  rw [List.length_append] at hroom
  rw [← hlen]
  refine drop xs h (by omega) fun m h => tick h fun m h => ?_
  refine bind (of_ok rfl) fun r m' hok => ?_
  obtain ⟨-, rfl⟩ := accumulator_eq_ok_iff.1 hok
  refine finishWith [r] h ?_
  rw [List.length_singleton]
  omega

theorem jumpIfNotTrue (h : m.Shows program config ws a) (hi : i.opcode = .jnt) :
    Lawful program config .jnt (Microcode.jumpIfNotTrue i) m := by
  refine bind ?_ fun b m' hok => ?_
  · intro fault m' hfail
    obtain ⟨g, d, hpop, heq, -⟩ := datapath_eq_error_iff.1 hfail
    cases heq
    obtain ⟨rfl, hempty⟩ := Datapath.fault_of_popTruth h.invariant.fits hpop
    exact Nat.le_of_eq hempty
  · cases b with
    | true => exact advance
    | false => exact jump hi (by decide)

theorem rotate (h : m.Shows program config ws a) :
    Lawful program config op Microcode.rotate m := by
  refine top h (by decide) fun _ c _ _ _ => top h (by decide) fun _ b _ _ _ =>
    top h (by decide) fun w x xs hw hlen => ?_
  obtain ⟨y, z, rfl⟩ := List.length_eq_two.1 hlen
  subst hw
  have hroom := h.length_lt
  refine drop [x, y, z] h (by simp) fun m h => finishWith [b, c, x] h ?_
  simpa using hroom

theorem swap (h : m.Shows program config ws a) : Lawful program config op Microcode.swap m := by
  refine top h (by decide) fun _ b _ _ _ => top h (by decide) fun w x xs hw hlen => ?_
  obtain ⟨y, rfl⟩ := List.length_eq_one_iff.1 hlen
  subst hw
  have hroom := h.length_lt
  refine drop [x, y] h (by simp) fun m h => finishWith [b, x] h ?_
  simpa using hroom

theorem dropWord (h : m.Shows program config ws a) :
    Lawful program config .drop Microcode.drop m := by
  by_cases hempty : ws = []
  · subst hempty
    refine bind ?_ fun _ m' _ => advance
    intro fault m' hfail
    obtain ⟨g, d, hadjust, heq, -⟩ := datapath_eq_error_iff.1 hfail
    cases heq
    have hhead := h.head
    have hbounds := Datapath.adjustHead_neg_of_lt (k := 1) (by decide)
      (Nat.lt_succ_of_le (Nat.le_of_eq hhead))
    cases hbounds.symm.trans hadjust
    exact ⟨h.invariant.datapath.1, .inr ⟨hhead, rfl, rfl⟩⟩
  · rw [← List.dropLast_append_getLast hempty] at h
    exact drop [ws.getLast hempty] h (by simp) fun m h => advance

theorem unsupported (hop : op ∈ [.minus, .div, .print]) :
    Lawful program config op (throw (.fault (.unsupportedOpcode op)) : Microcode Unit) m := by
  intro fault m' hfail
  cases hfail
  exact ⟨rfl, hop⟩

theorem execute (h : m.Shows program config ws a) (htext : 0 < program.length)
    (i : Instruction) : Lawful program config i.opcode (Microcode.execute i) m := by
  simp only [Microcode.execute]
  cases hop : i.opcode with
  | readDirect => exact readDirect h
  | readIndirect => exact readIndirect h htext
  | writeDirect => exact writeDirect h
  | writeIndirect => exact writeIndirect h htext
  | jnt => exact jumpIfNotTrue h hop
  | jmp => exact jump hop (by decide)
  | begin => exact advance
  | nop => exact advance
  | mod => exact arithmetic h rfl
  | plus => exact arithmetic h rfl
  | mult => exact arithmetic h rfl
  | pow => exact arithmetic h rfl
  | lt => exact arithmetic h rfl
  | neg => exact arithmetic h rfl
  | invert => exact arithmetic h rfl
  | rot => exact rotate h
  | dup => exact top h (by decide) fun _ x _ _ _ => push h (.inr (by decide)) fun _ _ => advance
  | dupUnder =>
    exact top h (by decide) fun _ x _ _ _ => push h (.inr (by decide)) fun _ _ => advance
  | swap => exact swap h
  | push => exact literal hop (by decide) fun x => push h (.inr (by decide)) fun _ _ => advance
  | drop => exact dropWord h
  | halt =>
    intro fault m' hfail
    cases hfail
  | minus => exact unsupported (by decide)
  | div => exact unsupported (by decide)
  | print => exact unsupported (by decide)

end Lawful

/-- A fault of a reachable machine is that there is no instruction, or one that the table has
for the opcode being executed. -/
theorem fault_shape {program : Program} {input : List Char} {config : Machine.Config}
    {m m' : Machine} {f : Fault} (hm : m.Reachable program input config)
    (h : Machine.step m = .error (.fault f) m') :
    (program.length ≤ m.pc ∧ f = .noInstruction m.pc program.length) ∨
      ∃ i, program.instructions[m.pc]? = some i ∧
        f.RaisedBy config m.memory.programStart i.opcode := by
  have hinvariant := hm.invariant
  rcases Machine.step_eq_error_iff.1 h with ⟨found, hfetch, heq, -⟩ | ⟨i, hfetch, hexec⟩
  · cases heq
    rw [hinvariant.memory.fetch_eq] at hfetch
    split at hfetch
    · cases hfetch
    · next hnone =>
      cases hfetch
      exact .inl ⟨List.getElem?_eq_none_iff.1 hnone, rfl⟩
  · have hi := hinvariant.memory.fetch_eq_ok_iff.1 hfetch
    have hshows : (m.executing (some i)).Shows program config m.datapath.words m.memory.address :=
      ⟨hinvariant.executing _, rfl, rfl⟩
    have htext : 0 < program.length := Nat.zero_lt_of_lt (List.getElem?_eq_some_iff.1 hi).1
    have hstart : m.memory.programStart = config.memorySize - program.length := hshows.start_eq
    rw [hstart]
    exact .inr ⟨i, hi, Lawful.execute hshows htext i f m' hexec⟩

/-- Stores a word through a pointer that holds the greatest word. -/
def writeThroughGreatest : Program where
  data := some [.wrap 0, .wrap 0, .wrap 2147483647]
  instructions :=
    [{ opcode := .push, argument := some (.number (.wrap 7)) },
     { opcode := .push, argument := some (.number (.wrap 2)) },
     { opcode := .writeIndirect }]

/-- The greatest word is no address, and that is the fault: its successor is not asked for. -/
theorem fault_shape_greatest_pointer :
    ∃ m m', m.Reachable writeThroughGreatest [] ⟨132, 4, 9⟩ ∧
      Machine.step m = .error (.fault (.addressOutOfRange 2147483647 132)) m' ∧
      ∃ i, writeThroughGreatest.instructions[m.pc]? = some i ∧
        (Fault.addressOutOfRange 2147483647 132).RaisedBy ⟨132, 4, 9⟩ m.memory.programStart
          i.opcode := by
  have hrun : (Run.start writeThroughGreatest [] ⟨132, 4, 9⟩).toOption.map
      (fun r => r.next.next.error?.map ExecutionError.cause) =
      some (some (.addressOutOfRange 2147483647 132)) := by decide +kernel
  obtain ⟨r, hstart, hrun⟩ := exists_of_toOption_map hrun
  obtain ⟨e, herror, hcause⟩ := Option.map_eq_some_iff.1 hrun
  obtain ⟨f, m', hstep, rfl⟩ := Run.fault_of_step (Run.step_of_error? herror)
  cases hcause
  have hreach : r.next.next.machine.Reachable writeThroughGreatest [] ⟨132, 4, 9⟩ :=
    ⟨_, (Run.Reachable.start hstart).next.next, rfl⟩
  refine ⟨_, m', hreach, hstep, ?_⟩
  rcases fault_shape hreach hstep with ⟨-, hnone⟩ | hraised
  · cases hnone
  · exact hraised

end Microstack
