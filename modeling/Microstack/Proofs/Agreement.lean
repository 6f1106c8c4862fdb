/-
# `Microstack.Proofs.Agreement` — what a program cannot see of its machine

Some of the state is out of a program's sight:

    the accumulator and the address register     between instructions
    the slots at or above the head               always
    the words of the two port cells              always

Machines that agree on the rest (`Machine.Agree`) return the same from every step and agree
again, also where the step fails part-way.  The reason is an order that all microcode keeps, and
that its description as a `Sequence` has in its rules: a register is latched before it is used,
and a slot is overwritten before the head moves above it.  `Machine.Latched` is agreement with
the registers included that were latched so far.

The machines may differ in size.  The second one then has room for whatever the first one
has, and nothing is promised from where the first one fails (`Roomier`).
-/
import Microstack.Proofs.Lockstep

namespace Microstack

/-- The states are related, and a register holds the same in both if it was latched. -/
def Holding {σ ρ : Type} (R : σ → σ → Prop) (register : σ → ρ) (latched : Bool) (s s' : σ) :
    Prop :=
  R s s' ∧ (latched = true → register s' = register s)

/-! ## Datapaths -/

namespace Datapath

variable {d d' : Datapath}

theorem Fits.top_eq (h : d.Fits) (offset : Nat) :
    d.top offset =
      if deepest < offset then .error (.stackOffset offset deepest)
      else if d.words.length ≤ offset then .error (.stackUnderflow offset d.words.length)
      else .ok (d.words.getD (d.words.length - offset - 1) 0) := by
  rw [h.length_words, top]
  by_cases hhead : d.head ≤ offset
  · rw [if_pos hhead, if_pos hhead]
  · have hword : d.words.getD (d.head - offset - 1) 0 =
        d.slots.getD (d.head - offset - 1) 0 := by
      rw [words, List.getD_eq_getElem?_getD, List.getElem?_take_of_lt (by omega),
        Array.getElem?_toList, Array.getD_eq_getD_getElem?]
    rw [if_neg hhead, if_neg hhead, hword]

/-- The datapaths hold the same words, whatever is above their heads. -/
structure Agree (c c' : Nat) (d d' : Datapath) : Prop where
  left : d.Sized c
  right : d'.Sized c'
  words : d'.words = d.words

namespace Agree

variable {c c' : Nat} {G : Fault → Prop} {alu : Bool}

theorem head (h : Agree c c' d d') : d'.head = d.head := by
  rw [← h.right.2.length_words, h.words, h.left.2.length_words]

theorem top (h : Agree c c' d d') (offset : Nat) : d'.top offset = d.top offset := by
  rw [h.right.2.top_eq, h.words, h.left.2.top_eq]

theorem topIncremented (h : Agree c c' d d') (offset : Nat) :
    d'.topIncremented offset = d.topIncremented offset := by
  rw [Datapath.topIncremented, Datapath.topIncremented, h.top]

theorem result (h : Agree c c' d d') (op : AluOp) : d'.result op = d.result op := by
  cases op <;> simp only [Datapath.result, h.top]

theorem accumulated (h : Agree c c' d d') (r : Word) :
    Agree c c' (d.accumulated r) (d'.accumulated r) :=
  ⟨h.left, h.right, h.words⟩

theorem popped (h : Agree c c' d d') (k : Nat) : Agree c c' (d.popped k) (d'.popped k) where
  left := ⟨h.left.1, h.left.2.popped k⟩
  right := ⟨h.right.1, h.right.2.popped k⟩
  words := by rw [words_popped, words_popped, h.words, h.head]

theorem spilled (h : Agree c c' d d') (w : Word) : Agree c c' (d.spilled w) (d'.spilled w) where
  left := ⟨(capacity_spilled d w).trans h.left.1,
    Nat.lt_of_lt_of_eq h.left.2 (capacity_spilled d w).symm⟩
  right := ⟨(capacity_spilled d' w).trans h.right.1,
    Nat.lt_of_lt_of_eq h.right.2 (capacity_spilled d' w).symm⟩
  words := by rw [words_spilled, words_spilled, h.words]

theorem pushed (h : Agree c c' d d') (w : Word) (hroom : d.head + 1 < c) (hle : c ≤ c') :
    Agree c c' (d.pushed w) (d'.pushed w) where
  left := by
    have hcap := h.left.1
    exact ⟨(capacity_pushed d w).trans hcap,
      h.left.2.pushed w (by rw [h.left.2.length_words]; omega)⟩
  right := by
    have hcap := h.right.1
    exact ⟨(capacity_pushed d' w).trans hcap,
      h.right.2.pushed w (by rw [h.right.2.length_words, h.head]; omega)⟩
  words := by rw [h.right.2.words_pushed, h.words, h.left.2.words_pushed]

/-- Moving the head down shows no slot that was hidden. -/
theorem lockstep_lower (hG : c' = c ∨ ∀ f, G f) {k : Nat} (hk : 1 ≤ k ∧ k ≤ 3) :
    Lockstep (Holding (Agree c c') accumulator alu) G (adjustHead (-k)) := by
  rintro d d' ⟨h, hacc⟩
  by_cases hle : k ≤ d.head
  · have hok := (adjustHead_neg_eq_ok_iff hk (u := ())).2 ⟨hle, (h.left.2.popped k), rfl⟩
    have hok' := (adjustHead_neg_eq_ok_iff hk (u := ())).2
      ⟨h.head.symm ▸ hle, (h.right.2.popped k), rfl⟩
    rw [hok, hok']
    exact .ok ⟨h.popped k, hacc⟩
  · rw [adjustHead_neg_of_lt hk (by omega)]
    rcases hG with rfl | hG
    · rw [adjustHead_neg_of_lt hk (by rw [h.head]; omega), h.head, h.left.1, h.right.1]
      exact .error ⟨h, hacc⟩
    · exact .excused (hG _)

/-- A pushed word covers the slot that comes into sight. -/
theorem lockstep_push (hle : c ≤ c') (hG : c' = c ∨ ∀ f, G f) (w : Word) :
    Lockstep (Holding (Agree c c') accumulator alu) G (push w) := by
  rintro d d' ⟨h, hacc⟩
  have hhead := h.head
  have hleft := h.left.1
  have hright := h.right.1
  by_cases hroom : d.head + 1 < c
  · rw [(push_eq_ok_iff (u := ())).2 ⟨by omega, rfl⟩, (push_eq_ok_iff (u := ())).2 ⟨by omega, rfl⟩]
    exact .ok ⟨h.pushed w hroom hle, hacc⟩
  · rw [push_of_full w (by omega)]
    rcases hG with rfl | hG
    · rw [push_of_full w (by omega), hhead, hleft, hright]
      exact .error ⟨h.spilled w, hacc⟩
    · exact .excused (hG _)

theorem latch_cases (h : Agree c c' d d') (op : AluOp) :
    (∃ r, latch op d = .ok () (d.accumulated r) ∧ latch op d' = .ok () (d'.accumulated r)) ∨
      ∃ f, latch op d = .error f d ∧ latch op d' = .error f d' := by
  unfold latch
  rw [h.result]
  cases d.result op with
  | ok r => exact .inl ⟨r, rfl, rfl⟩
  | error f => exact .inr ⟨f, rfl, rfl⟩

theorem lockstep_popTruth (hG : c' = c ∨ ∀ f, G f) :
    Lockstep (Holding (Agree c c') accumulator alu) G popTruth := by
  rintro d d' ⟨h, hacc⟩
  rcases h.latch_cases .notTrue with ⟨r, hd, hd'⟩ | ⟨f, hd, hd'⟩
  · show Matching _ _ ((latch .notTrue >>= _) d) ((latch .notTrue >>= _) d')
    rw [bind_of_ok hd, bind_of_ok hd']
    -- From here on the accumulator is the same.
    have hlower : Lockstep (Holding (Agree c c') accumulator true) G (adjustHead (-1)) :=
      lockstep_lower hG (k := 1) (by decide)
    refine (hlower _ _ ⟨h.accumulated r, fun _ => rfl⟩).bind ?_
      fun _ _ ht => ⟨ht.1, fun _ => ht.2 rfl⟩
    rintro _ t t' ⟨ht, htacc⟩
    show Matching _ _ (.ok (decide (t.accumulator ≠ Word.yes)) t)
      (.ok (decide (t'.accumulator ≠ Word.yes)) t')
    rw [htacc rfl]
    exact .ok ⟨ht, fun _ => htacc rfl⟩
  · show Matching _ _ ((latch .notTrue >>= _) d) ((latch .notTrue >>= _) d')
    rw [bind_of_error hd, bind_of_error hd']
    exact .error ⟨h, hacc⟩

end Agree

end Datapath

/-! ## Memories -/

namespace Memory

variable {m m' : Memory}

/-- The memories hold the same program and the same words from address 2 up to where the
program starts in the first of them, and have the same input and output. -/
structure Agree (n n' : Nat) (program : List Instruction) (m m' : Memory) : Prop where
  left : m.Loaded n program
  right : m'.Loaded n' program
  data : ∀ a, 2 ≤ a → a < m.programStart → m'.peek? a = m.peek? a
  input : m'.input = m.input
  output : m'.output = m.output

namespace Agree

variable {n n' : Nat} {program : List Instruction} {F : Trap → Prop}

theorem start_add (h : Agree n n' program m m') : m'.programStart + n = m.programStart + n' := by
  rw [← h.left.size_eq, ← h.right.size_eq, ← h.left.start_add_length,
    ← h.right.start_add_length]
  omega

theorem start_le (h : Agree n n' program m m') (hle : n ≤ n') :
    m.programStart ≤ m'.programStart := by
  have hstart := h.start_add
  omega

theorem fetch (h : Agree n n' program m m') (pc : Nat) : m'.fetch pc = m.fetch pc := by
  rw [h.right.fetch_eq, h.left.fetch_eq]

theorem addressed (h : Agree n n' program m m') (hle : n ≤ n') {a : Nat} (ha : a ≤ m.size) :
    Agree n n' program (m.addressed a) (m'.addressed a) where
  left := h.left.addressed ha
  right := h.right.addressed (by
    have hsize := h.left.size_eq
    have hsize' := h.right.size_eq
    omega)
  data := h.data
  input := h.input
  output := h.output

theorem stored (h : Agree n n' program m m') (hle : n ≤ n') {a : Nat} (ha : a < m.programStart)
    (w : Word) : Agree n n' program (m.stored a w) (m'.stored a w) where
  left := h.left.stored ha w
  right := h.right.stored (Nat.lt_of_lt_of_le ha (h.start_le hle)) w
  data b hport hb := by
    by_cases hab : b = a
    · have hsize : a < m.size := Nat.lt_of_lt_of_le ha h.left.start_le
      have hsize' : a < m'.size :=
        Nat.lt_of_lt_of_le (Nat.lt_of_lt_of_le ha (h.start_le hle)) h.right.start_le
      rw [hab, peek?_stored_self hsize, peek?_stored_self hsize']
    · rw [peek?_stored_ne hab, peek?_stored_ne hab, h.data b hport hb]
  input := h.input
  output := h.output

theorem consumed (h : Agree n n' program m m') (hle : n ≤ n') (c : Char) (rest : List Char) :
    Agree n n' program (m.consumed c rest) (m'.consumed c rest) :=
  have hs := h.stored hle (Nat.lt_trans (by decide) h.left.two_lt) (Word.ofChar c)
  ⟨h.left.consumed c rest, h.right.consumed c rest, hs.data, rfl, hs.output⟩

theorem emitted (h : Agree n n' program m m') (hle : n ≤ n') (w : Word) :
    Agree n n' program (m.emitted w) (m'.emitted w) :=
  have hs := h.stored hle (Nat.lt_trans (by decide) h.left.two_lt) w
  ⟨h.left.emitted w, h.right.emitted w, hs.data, hs.input, by
    simp only [Memory.emitted, h.output]⟩

theorem latch_cases (h : Agree n n' program m m') (hle : n ≤ n')
    (hF : n' = n ∨ ∀ f, F (.fault f)) (a : Word) :
    (∃ k, latch a m = .ok () (m.addressed k) ∧ latch a m' = .ok () (m'.addressed k) ∧
      Agree n n' program (m.addressed k) (m'.addressed k)) ∨
    ∃ f, latch a m = .error (.fault f) m ∧
      (F (.fault f) ∨ latch a m' = .error (.fault f) m') := by
  have hsize := h.left.size_eq
  have hsize' := h.right.size_eq
  unfold latch
  by_cases hin : 0 ≤ a.toInt ∧ a.toInt ≤ m.size
  · rw [if_pos hin, if_pos (by omega)]
    exact .inl ⟨a.toInt.toNat, rfl, rfl, h.addressed hle (by omega)⟩
  · rw [if_neg hin]
    refine .inr ⟨_, rfl, ?_⟩
    rcases hF with rfl | hF
    · rw [hsize', ← hsize, if_neg hin]
      exact .inr rfl
    · exact .inl (hF _)

theorem text_of_eq (h : Agree n n program m m') (haddress : m'.address = m.address)
    (htext : m.programStart ≤ m.address) :
    m'.programStart ≤ m'.address ∧ m'.dataIndex = m.dataIndex := by
  have hstart : m'.programStart = m.programStart := Nat.add_right_cancel h.start_add
  refine ⟨by omega, ?_⟩
  simp only [dataIndex, latched, h.left.size_eq, h.right.size_eq, haddress, hstart]

theorem coupled (hle : n ≤ n') (hF : n' = n ∨ ∀ f, F (.fault f)) (program : List Instruction) :
    Coupled (Holding (Agree n n' program) address true) F where
  loaded h := ⟨⟨n, program, h.1.left⟩, n', program, h.1.right⟩
  address h := h.2 rfl
  start h := h.1.start_le hle
  data a h := h.1.data a
  input h := h.1.input
  text h htext := by
    rcases hF with rfl | hF
    · exact .inr (h.1.text_of_eq (h.2 rfl) htext)
    · exact .inl hF
  consumed c rest h := ⟨h.1.consumed hle c rest, h.2⟩
  emitted w h := ⟨h.1.emitted hle w, h.2⟩
  stored w h ha := ⟨h.1.stored hle ha w, h.2⟩

end Agree

end Memory

/-! ## Machines -/

/-- The second machine has at least the room of the first, and no more of it unless nothing
is promised once the first one has failed. -/
structure Roomier (small large : Machine.Config) (F : Trap → Prop) : Prop where
  memory : small.memorySize ≤ large.memorySize
  stack : small.stackCapacity ≤ large.stackCapacity
  memory_eq : large.memorySize = small.memorySize ∨ ∀ f, F (.fault f)
  stack_eq : large.stackCapacity = small.stackCapacity ∨ ∀ f, F (.fault f)

namespace Machine

/-- The machines agree on what a program can see: the words on the stack, the program and
the words from address 2 on, the input and the output, the program counter and the ticks.
Both have the invariant. -/
structure Agree (program : Program) (small large : Config) (m m' : Machine) : Prop where
  memory : m.memory.Agree small.memorySize large.memorySize program.instructions m'.memory
  datapath : m.datapath.Agree small.stackCapacity large.stackCapacity m'.datapath
  pc : m'.pc = m.pc
  ticks : m'.ticks = m.ticks

/-- The machines agree while they execute the same instruction, and so do the registers that
were latched. -/
structure Latched (program : Program) (small large : Config) (alu address : Bool)
    (m m' : Machine) : Prop where
  memory : Holding (Memory.Agree small.memorySize large.memorySize program.instructions)
    Memory.address address m.memory m'.memory
  datapath : Holding (Datapath.Agree small.stackCapacity large.stackCapacity)
    Datapath.accumulator alu m.datapath m'.datapath
  pc : m'.pc = m.pc
  ticks : m'.ticks = m.ticks
  current : m'.current = m.current

namespace Latched

variable {program : Program} {small large : Config} {alu address : Bool} {F : Trap → Prop}
  {m m' : Machine}

theorem agree (h : Latched program small large alu address m m') :
    Agree program small large m m' :=
  ⟨h.memory.1, h.datapath.1, h.pc, h.ticks⟩

theorem forget (h : Latched program small large alu address m m') :
    Latched program small large false false m m' :=
  ⟨⟨h.memory.1, nofun⟩, ⟨h.datapath.1, nofun⟩, h.pc, h.ticks, h.current⟩

theorem looksLike (h : Latched program small large alu address m m') : m.LooksLike m' :=
  ⟨h.pc, h.ticks, h.memory.1.output, by rw [h.current]⟩

theorem lockstep_datapath {α : Type} {act : Datapath.Action α}
    (hact : Lockstep (Holding (Datapath.Agree small.stackCapacity large.stackCapacity)
      Datapath.accumulator alu) (fun f => F (.fault f)) act) :
    Lockstep (Latched program small large alu address) F (Microcode.datapath act) :=
  .datapath hact (fun _ _ h => h.datapath) fun _ _ _ _ h hd =>
    ⟨h.memory, hd, h.pc, h.ticks, h.current⟩

theorem lockstep_memory {α : Type} {act : Memory.Action α}
    (hact : Lockstep (Holding (Memory.Agree small.memorySize large.memorySize
      program.instructions) Memory.address address) F act) :
    Lockstep (Latched program small large alu address) F (Microcode.memory act) :=
  .memory hact (fun _ _ h => h.memory) fun _ _ _ _ h hmem =>
    ⟨hmem, h.datapath, h.pc, h.ticks, h.current⟩

theorem lockstep_read (hroom : Roomier small large F) :
    Lockstep (Latched program small large alu true) F Microcode.read :=
  lockstep_memory (Memory.Agree.coupled hroom.memory hroom.memory_eq program.instructions).read

theorem lockstep_write (hroom : Roomier small large F) (w : Word) :
    Lockstep (Latched program small large alu true) F (Microcode.write w) :=
  lockstep_memory
    ((Memory.Agree.coupled hroom.memory hroom.memory_eq program.instructions).write w)

theorem latchAlu_cases (h : Latched program small large alu address m m') (op : AluOp) :
    (∃ t t', Microcode.latchAlu op m = .ok () t ∧ Microcode.latchAlu op m' = .ok () t' ∧
      Latched program small large true address t t') ∨
    ∃ f, Microcode.latchAlu op m = .error (.fault f) m ∧
      Microcode.latchAlu op m' = .error (.fault f) m' := by
  simp only [Microcode.latchAlu, Microcode.datapath_apply]
  rcases h.datapath.1.latch_cases op with ⟨r, hd, hd'⟩ | ⟨f, hd, hd'⟩
  · rw [hd, hd']
    exact .inl ⟨_, _, rfl, rfl, h.memory, ⟨h.datapath.1.accumulated r, fun _ => rfl⟩, h.pc,
      h.ticks, h.current⟩
  · rw [hd, hd']
    exact .inr ⟨f, rfl, rfl⟩

theorem latchAddress_cases (hroom : Roomier small large F)
    (h : Latched program small large alu address m m') (offset : Nat) :
    (∃ t t', Microcode.latchAddress offset m = .ok () t ∧
      Microcode.latchAddress offset m' = .ok () t' ∧
      Latched program small large alu true t t') ∨
    ∃ f, Microcode.latchAddress offset m = .error (.fault f) m ∧
      (F (.fault f) ∨ Microcode.latchAddress offset m' = .error (.fault f) m') := by
  simp only [Microcode.latchAddress, bind, EStateM.bind, Microcode.top, Microcode.inspect,
    h.datapath.1.top]
  cases m.datapath.top offset with
  | error f => exact .inr ⟨f, rfl, .inr rfl⟩
  | ok a =>
    simp only [Microcode.memory_apply]
    rcases h.memory.1.latch_cases hroom.memory hroom.memory_eq a with
      ⟨k, hm, hm', hagree⟩ | ⟨f, hm, hF | hm'⟩
    · rw [hm, hm']
      exact .inl ⟨_, _, rfl, rfl, ⟨hagree, fun _ => rfl⟩, h.datapath, h.pc, h.ticks, h.current⟩
    · rw [hm]
      exact .inr ⟨f, rfl, .inl hF⟩
    · rw [hm, hm']
      exact .inr ⟨f, rfl, .inr rfl⟩

end Latched

end Machine

/-! ## Microcode latches first -/

namespace Microcode

variable {program : Program} {small large : Machine.Config} {F : Trap → Prop} {i : Instruction}
  {spent left : Nat} {l l' : Latches} {m m' : Machine}

/-- A transfer does the same on machines that agree, and leaves them in agreement on what was
latched by then.  If what follows is matched, so is the whole. -/
theorem Part.matching_bind (hroom : Roomier small large F) {α : Type} {c : Microcode α}
    {f : α → Microcode Unit} (hc : Part i spent l l' c)
    (h : m.Latched program small large l.alu l.address m')
    (hf : ∀ a t t', t.Latched program small large l'.alu l'.address t' →
      Matching (Machine.Latched program small large false false) F (f a t) (f a t')) :
    Matching (Machine.Latched program small large false false) F ((c >>= f) m)
      ((c >>= f) m') := by
  have hbind (hlock : Lockstep (Machine.Latched program small large l.alu l.address) F c)
      (hf : ∀ a t t', t.Latched program small large l.alu l.address t' →
        Matching (Machine.Latched program small large false false) F (f a t) (f a t')) :
      Matching (Machine.Latched program small large false false) F ((c >>= f) m)
        ((c >>= f) m') :=
    (hlock m m' h).bind hf fun _ _ ht => ht.forget
  cases hc with
  | literal _ => exact hbind (.inspect fun _ _ _ => rfl) hf
  | top offset => exact hbind (.inspect fun m m' h => h.datapath.1.top offset) hf
  | topIncremented offset =>
    exact hbind (.inspect fun m m' h => h.datapath.1.topIncremented offset) hf
  | push w =>
    exact hbind (Machine.Latched.lockstep_datapath
      (Datapath.Agree.lockstep_push hroom.stack hroom.stack_eq w)) hf
  | lower k hk =>
    exact hbind (Machine.Latched.lockstep_datapath
      (Datapath.Agree.lockstep_lower hroom.stack_eq hk)) hf
  | popTruth =>
    exact hbind (Machine.Latched.lockstep_datapath
      (Datapath.Agree.lockstep_popTruth hroom.stack_eq)) hf
  | latchAlu op =>
    rcases h.latchAlu_cases op with ⟨t, t', ht, ht', hlatched⟩ | ⟨f, ht, ht'⟩
    · rw [bind_of_ok ht, bind_of_ok ht']
      exact hf () _ _ hlatched
    · rw [bind_of_error ht, bind_of_error ht']
      exact .error h.forget
  | accumulator halu =>
    have haccumulator : m'.datapath.accumulator = m.datapath.accumulator := h.datapath.2 halu
    rw [bind_of_ok (accumulator_eq_ok_iff.2 ⟨rfl, rfl⟩),
      bind_of_ok (accumulator_eq_ok_iff.2 ⟨rfl, rfl⟩), haccumulator]
    exact hf _ _ _ h
  | latchAddress offset =>
    rcases h.latchAddress_cases hroom offset with ⟨t, t', ht, ht', hlatched⟩ | ⟨f, ht, hF | ht'⟩
    · rw [bind_of_ok ht, bind_of_ok ht']
      exact hf () _ _ hlatched
    · rw [bind_of_error ht]
      exact .excused hF
    · rw [bind_of_error ht, bind_of_error ht']
      exact .error h.forget
  | read haddress _ _ => exact hbind (haddress ▸ Machine.Latched.lockstep_read hroom) hf
  | write w haddress => exact hbind (haddress ▸ Machine.Latched.lockstep_write hroom w) hf

theorem Sequence.matching (hroom : Roomier small large F) {c : Microcode Unit}
    (hc : Sequence i spent left l c) (h : m.Latched program small large l.alu l.address m') :
    Matching (Machine.Latched program small large false false) F (c m) (c m') := by
  induction hc generalizing m m' with
  | finish =>
    have hforget := h.forget
    exact .ok ⟨hforget.memory, hforget.datapath, congrArg (· + 1) h.pc,
      congrArg (· + 1) h.ticks, h.current⟩
  | jump _ =>
    have htarget : Lockstep (Machine.Latched program small large false false) F
        (inspect fun _ => i.target) := .inspect fun _ _ _ => rfl
    refine (htarget m m' h.forget).bind (fun pc t t' ht => ?_) fun _ _ ht => ht
    exact .ok ⟨ht.memory, ht.datapath, rfl, congrArg (· + 1) ht.ticks, ht.current⟩
  | halt => exact .error h.forget
  | unsupported _ => exact .error h.forget
  | tick _ ih => exact ih ⟨h.memory, h.datapath, h.pc, congrArg (· + 1) h.ticks, h.current⟩
  | transfer hpart _ ih => exact hpart.matching_bind hroom h fun a _ _ ht => ih a ht

end Microcode

/-! ## Steps -/

theorem Roomier.refl (config : Machine.Config) (F : Trap → Prop) : Roomier config config F :=
  ⟨Nat.le_refl _, Nat.le_refl _, .inl rfl, .inl rfl⟩

namespace Machine

variable {program : Program} {small large config : Config} {F : Trap → Prop} {m m' : Machine}

theorem Latched.lockstep_step (hroom : Roomier small large F) :
    Lockstep (Latched program small large false false) F step := by
  refine .step (fun i m m' h => (Microcode.sequence_execute i).matching hroom h) ?_ ?_
  · intro m m' h
    rw [h.memory.1.fetch, h.pc]
  · intro m m' i h
    exact ⟨h.memory, h.datapath, h.pc, h.ticks, rfl⟩

/-- A step returns the same on machines that agree, and leaves them in agreement. -/
theorem Agree.step (h : m.Agree program config config m') :
    Matching (Agree program config config) (fun _ => False) (step m) (step m') := by
  -- The instruction that was executed before is the first thing a step forgets.
  have hlatched : Latched program config config false false (m.executing none)
      (m'.executing none) :=
    ⟨⟨h.memory, nofun⟩, ⟨h.datapath, nofun⟩, h.pc, h.ticks, rfl⟩
  exact (Latched.lockstep_step (.refl config _) _ _ hlatched).mono fun _ _ h => h.agree

def after (m : Machine) : Nat → Machine
  | 0 => m
  | n + 1 => leaves step (m.after n)

theorem Agree.after (h : m.Agree program config config m') (n : Nat) :
    (m.after n).Agree program config config (m'.after n) := by
  induction n with
  | zero => exact h
  | succ n ih => exact ih.step.leaves

end Machine

end Microstack
