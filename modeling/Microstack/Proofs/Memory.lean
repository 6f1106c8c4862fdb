/-
# `Microstack.Proofs.Memory` — what a loaded memory keeps, and when its transfers complete

A memory that was loaded with a program keeps four facts, whatever is done to
it afterwards (`Memory.Loaded`):

    below the program start          every cell holds a word
    from the program start on        the program, instruction by instruction
    the program start                is above address 128
    the address register             is at most the size

They are what makes reading and writing say something plain: a data address is
one from 2 up to the program start, its word is the one that `peek?` shows, and
nothing but the two ports has any other effect.
-/
import Microstack.Memory
import Microstack.Proofs.Action

namespace Microstack.Memory

variable {m m' : Memory} {n : Nat} {program : List Instruction} {w : Word}

/-! ## Changes of state -/

def addressed (m : Memory) (a : Nat) : Memory := { m with address := a }

def stored (m : Memory) (a : Nat) (w : Word) : Memory :=
  { m with cells := m.cells.setIfInBounds a (.word w) }

/-- The memory once the input port has taken a character. -/
def consumed (m : Memory) (c : Char) (rest : List Char) : Memory :=
  { m.stored 0 (Word.ofChar c) with input := rest }

/-- The memory once the output port has been given a word. -/
def emitted (m : Memory) (w : Word) : Memory :=
  { m.stored 1 w with output := m.output.push (token w) }

@[simp]
theorem size_stored (m : Memory) (a : Nat) (w : Word) : (m.stored a w).size = m.size := by
  simp [stored, size]

theorem peek?_stored_self {a : Nat} (ha : a < m.size) : (m.stored a w).peek? a = some w := by
  have hlt : a < m.cells.size := ha
  simp [peek?, stored, hlt, Cell.word?]

theorem peek?_stored_ne {a b : Nat} (hne : b ≠ a) : (m.stored a w).peek? b = m.peek? b := by
  have : a ≠ b := fun h => hne h.symm
  simp [peek?, stored, this]

/-! ## The invariant -/

/-- What a memory of `n` cells keeps that was loaded with a program. -/
structure Loaded (n : Nat) (program : List Instruction) (m : Memory) : Prop where
  size_eq : m.size = n
  start_add_length : m.programStart + program.length = m.size
  base_lt : Address.programBase < m.programStart
  word_below : ∀ a < m.programStart, ∃ w, m.cells[a]? = some (.word w)
  text_above : ∀ k, m.cells[m.programStart + k]? = program[k]?.map .instruction
  address_le : m.address ≤ m.size

namespace Loaded

theorem start_le (h : m.Loaded n program) : m.programStart ≤ m.size := by
  have := h.start_add_length
  omega

theorem two_lt (h : m.Loaded n program) : 2 < m.programStart :=
  Nat.lt_trans (by decide) h.base_lt

theorem exists_peek? (h : m.Loaded n program) {a : Nat} (ha : a < m.programStart) :
    ∃ w, m.peek? a = some w := by
  obtain ⟨w, hw⟩ := h.word_below a ha
  exact ⟨w, by simp [peek?, hw, Cell.word?]⟩

theorem programLength_eq (h : m.Loaded n program) : m.programLength = program.length := by
  rw [programLength, ← h.start_add_length, Nat.add_sub_cancel_left]

theorem fetch_eq (h : m.Loaded n program) (pc : Nat) :
    m.fetch pc =
      match program[pc]? with
      | some i => .ok i
      | none => .error (.noInstruction pc program.length) := by
  simp only [fetch, h.text_above, h.programLength_eq]
  cases program[pc]? with
  | none => rfl
  | some i => rfl

theorem fetch_eq_ok_iff (h : m.Loaded n program) {pc : Nat} {i : Instruction} :
    m.fetch pc = .ok i ↔ program[pc]? = some i := by
  rw [h.fetch_eq]
  cases program[pc]? with
  | none => simp
  | some j => simp

theorem addressed (h : m.Loaded n program) {a : Nat} (ha : a ≤ m.size) :
    (m.addressed a).Loaded n program where
  size_eq := h.size_eq
  start_add_length := h.start_add_length
  base_lt := h.base_lt
  word_below := h.word_below
  text_above := h.text_above
  address_le := ha

theorem stored (h : m.Loaded n program) {a : Nat} (ha : a < m.programStart) (w : Word) :
    (m.stored a w).Loaded n program where
  size_eq := by
    rw [size_stored]
    exact h.size_eq
  start_add_length := by
    rw [size_stored]
    exact h.start_add_length
  base_lt := h.base_lt
  word_below := by
    intro b hb
    by_cases hab : a = b
    · subst hab
      have hlt : a < m.cells.size := Nat.lt_of_lt_of_le ha h.start_le
      exact ⟨w, by simp [Memory.stored, hlt]⟩
    · obtain ⟨v, hv⟩ := h.word_below b hb
      exact ⟨v, by simp [Memory.stored, hab, hv]⟩
  text_above := by
    intro k
    have hne : a ≠ m.programStart + k := by omega
    simpa [Memory.stored, Array.getElem?_setIfInBounds, hne] using h.text_above k
  address_le := by
    rw [size_stored]
    exact h.address_le

theorem consumed (h : m.Loaded n program) (c : Char) (rest : List Char) :
    (m.consumed c rest).Loaded n program :=
  have hs := h.stored (Nat.lt_trans (by decide) h.two_lt) (Word.ofChar c)
  ⟨hs.size_eq, hs.start_add_length, hs.base_lt, hs.word_below, hs.text_above, hs.address_le⟩

theorem emitted (h : m.Loaded n program) (w : Word) : (m.emitted w).Loaded n program :=
  have hs := h.stored (Nat.lt_trans (by decide) h.two_lt) w
  ⟨hs.size_eq, hs.start_add_length, hs.base_lt, hs.word_below, hs.text_above, hs.address_le⟩

end Loaded

theorem loaded_of_create {data : List Word} {input : List Char}
    (h : create n program data input = .ok m) : m.Loaded n program := by
  unfold create at h
  split at h
  · cases h
  · next hsize =>
    split at h
    · cases h
    · next hdata =>
      obtain rfl := Except.ok.inj h
      have hbase : Address.programBase = 128 := rfl
      have hlength : (image n program data).length = n := by
        simp only [image, List.length_append, List.length_map, List.length_replicate]
        omega
      -- The words of the image, up to where the program starts.
      have hwords : (data.map Cell.word ++
          List.replicate (n - program.length - data.length) (Cell.word 0)).length =
            n - program.length := by
        simp only [List.length_append, List.length_map, List.length_replicate]
        omega
      refine ⟨by simpa [Memory.size] using hlength, ?_, ?_, ?_, ?_, Nat.zero_le _⟩
      · simp only [Memory.size, List.size_toArray, hlength]
        omega
      · show Address.programBase < n - program.length
        omega
      · intro a ha
        change a < n - program.length at ha
        simp only [List.getElem?_toArray, image]
        rw [List.getElem?_append_left (by rw [hwords]; exact ha)]
        by_cases hd : a < data.length
        · rw [List.getElem?_append_left (by simpa using hd)]
          exact ⟨data[a], by simp [hd]⟩
        · rw [List.getElem?_append_right (by simpa using hd)]
          refine ⟨0, ?_⟩
          rw [List.getElem?_replicate, if_pos (by simp only [List.length_map]; omega)]
      · intro k
        simp only [List.getElem?_toArray, image]
        rw [List.getElem?_append_right (by rw [hwords]; exact Nat.le_add_right _ _), hwords]
        simp

theorem eq_of_create {data : List Word} {input : List Char}
    (h : create n program data input = .ok m) :
    m = ⟨(image n program data).toArray, 0, n - program.length, input, #[]⟩ := by
  unfold create at h
  split at h
  · cases h
  · split at h
    · cases h
    · exact (Except.ok.inj h).symm

theorem peek?_image {data : List Word} (a : Nat) :
    (image n program data)[a]?.bind Cell.word? =
      (data.map Cell.word ++
        List.replicate (n - program.length - data.length) (Cell.word 0))[a]?.bind Cell.word? := by
  rw [image, List.getElem?_append]
  split
  · rfl
  · next hge =>
    rw [List.getElem?_eq_none (Nat.le_of_not_lt hge), List.getElem?_map]
    cases program[a - _]? with
    | none => rfl
    | some i => rfl

/-- The data words are an image of low memory, with zeros behind them. -/
theorem peek?_create {data : List Word} {input : List Char}
    (h : create n program data input = .ok m) {a : Nat} (ha : a < m.programStart) :
    m.peek? a = some (data.getD a 0) := by
  rw [eq_of_create h] at ha ⊢
  change a < n - program.length at ha
  simp only [peek?, List.getElem?_toArray, peek?_image, List.getD_eq_getElem?_getD]
  by_cases hdata : a < data.length
  · rw [List.getElem?_append_left (by simpa using hdata)]
    simp [hdata, Cell.word?]
  · rw [List.getElem?_append_right (by simpa using hdata), List.getElem?_replicate,
      if_pos (by simp only [List.length_map]; omega), List.getElem?_eq_none (by omega)]
    rfl

/-- Whatever the address, nothing but the data words is seen, with zeros behind them. -/
theorem getD_peek?_create {data : List Word} {input : List Char}
    (h : create n program data input = .ok m) (a : Nat) :
    (m.peek? a).getD 0 = data.getD a 0 := by
  rw [eq_of_create h, peek?, List.getElem?_toArray, peek?_image, List.getElem?_append,
    List.getD_eq_getElem?_getD]
  split
  · next hlt =>
    rw [List.length_map] at hlt
    simp [hlt, Cell.word?]
  · next hge =>
    rw [List.length_map] at hge
    rw [List.getElem?_replicate, List.getElem?_eq_none (Nat.le_of_not_lt hge)]
    split
    · rfl
    · rfl

/-! ## Transfers -/

theorem latch_eq_ok_iff {a : Word} {u : Unit} :
    latch a m = .ok u m' ↔
      0 ≤ a.toInt ∧ a.toInt ≤ m.size ∧ m' = m.addressed a.toInt.toNat := by
  unfold latch
  split
  · next h =>
    constructor
    · intro heq
      cases heq
      exact ⟨h.1, h.2, rfl⟩
    · rintro ⟨-, -, rfl⟩
      rfl
  · next h =>
    constructor
    · intro heq
      cases heq
    · rintro ⟨h0, h1, -⟩
      exact absurd ⟨h0, h1⟩ h

theorem latched_input (h : m.address = 0) : m.latched = .inputPort := by
  simp [latched, Address.classify, h]

theorem latched_output (h : m.address = 1) : m.latched = .outputPort := by
  simp [latched, Address.classify, h]

theorem latched_data (hport : 2 ≤ m.address) (h : m.address < m.programStart) :
    m.latched = .data m.address := by
  rw [latched, Address.classify, if_neg (by omega), if_neg (by omega), if_neg (by omega)]

theorem latched_text (hport : 2 ≤ m.address) (h : m.programStart ≤ m.address) :
    m.latched = .program m.address := by
  rw [latched, Address.classify, if_neg (by omega), if_neg (by omega), if_pos h]

theorem dataIndex_data (hport : 2 ≤ m.address) (hlt : m.address < m.programStart)
    (hsize : m.programStart ≤ m.size) : m.dataIndex = .ok m.address := by
  rw [dataIndex, if_neg (by omega), latched_data hport hlt]
  rfl

theorem dataIndex_text (hport : 2 ≤ m.address) (htext : m.programStart ≤ m.address) :
    m.dataIndex = .error (if m.size ≤ m.address then .addressOutOfRange m.address m.size
      else .programTextAccess m.address) := by
  rw [dataIndex, latched_text hport htext]
  split
  · rfl
  · rfl

/-! Reading and writing, region by region. -/

theorem read_input (h : m.address = 0) {c : Char} {rest : List Char} (hin : m.input = c :: rest) :
    read m = .ok (Word.ofChar c) (m.consumed c rest) := by
  simp only [read, latched_input h, hin]
  rfl

theorem read_input_empty (h : m.address = 0) (hin : m.input = []) :
    read m = .error .inputExhausted m := by
  simp only [read, latched_input h, hin]

theorem read_output (h : m.address = 1) : read m = .error (.fault .readFromOutputPort) m := by
  simp only [read, latched_output h]

theorem Loaded.read_data (h : m.Loaded n program) (hport : 2 ≤ m.address)
    (hlt : m.address < m.programStart) (hw : m.peek? m.address = some w) :
    read m = .ok w m := by
  simp only [read, latched_data hport hlt, dataIndex_data hport hlt h.start_le, hw]
  rfl

theorem read_text (hport : 2 ≤ m.address) (htext : m.programStart ≤ m.address) {f : Fault}
    (hf : m.dataIndex = .error f) : read m = .error (.fault f) m := by
  simp only [read, latched_text hport htext, hf]

theorem write_input (h : m.address = 0) :
    write w m = .error (.fault .writeToInputPort) m := by
  simp only [write, latched_input h]

theorem write_output (h : m.address = 1) : write w m = .ok () (m.emitted w) := by
  simp only [write, latched_output h]
  rfl

theorem Loaded.write_data (h : m.Loaded n program) (hport : 2 ≤ m.address)
    (hlt : m.address < m.programStart) : write w m = .ok () (m.stored m.address w) := by
  simp only [write, latched_data hport hlt, dataIndex_data hport hlt h.start_le]
  rfl

theorem write_text (hport : 2 ≤ m.address) (htext : m.programStart ≤ m.address) {f : Fault}
    (hf : m.dataIndex = .error f) : write w m = .error (.fault f) m := by
  simp only [write, latched_text hport htext, hf]

/-- The regions of an address that matter to reading and writing. -/
theorem region (m : Memory) :
    m.address = 0 ∨ m.address = 1 ∨ (2 ≤ m.address ∧ m.address < m.programStart) ∨
      (2 ≤ m.address ∧ m.programStart ≤ m.address) := by
  omega

/-- What reading can come to: a character, a word, or nothing done at all. -/
theorem Loaded.read_cases (h : m.Loaded n program) :
    (m.address = 0 ∧ ∃ c rest, m.input = c :: rest ∧
      read m = .ok (Word.ofChar c) (m.consumed c rest)) ∨
    (2 ≤ m.address ∧ m.address < m.programStart ∧
      ∃ w, m.peek? m.address = some w ∧ read m = .ok w m) ∨
    ∃ t, read m = .error t m := by
  rcases m.region with h0 | h1 | ⟨hport, hlt⟩ | ⟨hport, htext⟩
  · cases hin : m.input with
    | nil => exact .inr (.inr ⟨_, read_input_empty h0 hin⟩)
    | cons c rest => exact .inl ⟨h0, c, rest, rfl, read_input h0 hin⟩
  · exact .inr (.inr ⟨_, read_output h1⟩)
  · obtain ⟨w, hw⟩ := h.exists_peek? hlt
    exact .inr (.inl ⟨hport, hlt, w, hw, h.read_data hport hlt hw⟩)
  · have hf := dataIndex_text hport htext
    exact .inr (.inr ⟨_, read_text hport htext hf⟩)

theorem Loaded.write_cases (h : m.Loaded n program) (w : Word) :
    (m.address = 1 ∧ write w m = .ok () (m.emitted w)) ∨
    (2 ≤ m.address ∧ m.address < m.programStart ∧
      write w m = .ok () (m.stored m.address w)) ∨
    ∃ t, write w m = .error t m := by
  rcases m.region with h0 | h1 | ⟨hport, hlt⟩ | ⟨hport, htext⟩
  · exact .inr (.inr ⟨_, write_input h0⟩)
  · exact .inl ⟨h1, write_output h1⟩
  · exact .inr (.inl ⟨hport, hlt, h.write_data hport hlt⟩)
  · have hf := dataIndex_text hport htext
    exact .inr (.inr ⟨_, write_text hport htext hf⟩)

theorem Loaded.read_eq_ok_iff (h : m.Loaded n program) :
    read m = .ok w m' ↔
      (m.address = 0 ∧ ∃ c rest, m.input = c :: rest ∧ w = Word.ofChar c ∧
        m' = m.consumed c rest) ∨
      (2 ≤ m.address ∧ m.address < m.programStart ∧ m.peek? m.address = some w ∧ m' = m) := by
  constructor
  · intro heq
    rcases h.read_cases with ⟨h0, c, rest, hin, hr⟩ | ⟨hport, hlt, v, hv, hr⟩ | ⟨t, hr⟩
    all_goals
      rw [hr] at heq
      cases heq
    · exact .inl ⟨h0, c, rest, hin, rfl, rfl⟩
    · exact .inr ⟨hport, hlt, hv, rfl⟩
  · rintro (⟨h0, c, rest, hin, rfl, rfl⟩ | ⟨hport, hlt, hw, rfl⟩)
    · exact read_input h0 hin
    · exact h.read_data hport hlt hw

theorem Loaded.write_eq_ok_iff (h : m.Loaded n program) {u : Unit} :
    write w m = .ok u m' ↔
      (m.address = 1 ∧ m' = m.emitted w) ∨
      (2 ≤ m.address ∧ m.address < m.programStart ∧ m' = m.stored m.address w) := by
  constructor
  · intro heq
    rcases h.write_cases w with ⟨h1, hr⟩ | ⟨hport, hlt, hr⟩ | ⟨t, hr⟩
    all_goals
      rw [hr] at heq
      cases heq
    · exact .inl ⟨h1, rfl⟩
    · exact .inr ⟨hport, hlt, rfl⟩
  · rintro (⟨h1, rfl⟩ | ⟨hport, hlt, rfl⟩)
    · exact write_output h1
    · exact h.write_data hport hlt

/-! ## How a transfer fails -/

theorem fault_of_latch {a : Word} {t : Trap} (h : latch a m = .error t m') :
    ∃ f, t = .fault f := by
  unfold latch at h
  split at h
  · cases h
  · cases h
    exact ⟨_, rfl⟩

theorem fault_of_write {t : Trap} (h : write w m = .error t m') :
    ∃ f, t = .fault f := by
  unfold write at h
  split at h
  · cases h
    exact ⟨_, rfl⟩
  · cases h
  · split at h
    · cases h
    · cases h
      exact ⟨_, rfl⟩

theorem stop_of_read {t : Trap} (h : read m = .error t m') :
    (∃ f, t = .fault f) ∨ t = .inputExhausted ∧ m.address = 0 ∧ m.input = [] := by
  unfold read at h
  split at h
  · cases h
    exact .inl ⟨_, rfl⟩
  · next hport =>
    have haddress : m.address = 0 := by
      rw [← Address.index_classify m.address m.programStart]
      exact congrArg Address.index hport
    split at h
    · next hempty =>
      cases h
      exact .inr ⟨rfl, haddress, hempty⟩
    · cases h
  · split at h
    · cases h
    · cases h
      exact .inl ⟨_, rfl⟩

theorem eq_of_latch_error {a : Word} {t : Trap} (h : latch a m = .error t m') : m' = m := by
  unfold latch at h
  split at h
  · cases h
  · cases h
    rfl

theorem eq_of_read_error {t : Trap} (h : read m = .error t m') : m' = m := by
  unfold read at h
  split at h
  · cases h
    rfl
  · split at h
    · cases h
      rfl
    · cases h
  · split at h
    · cases h
    · cases h
      rfl

theorem eq_of_write_error {t : Trap} (h : write w m = .error t m') : m' = m := by
  unfold write at h
  split at h
  · cases h
    rfl
  · cases h
  · split at h
    · cases h
    · cases h
      rfl

/-! ## No transfer breaks the invariant -/

theorem leads_latch (a : Word) : Leads (Loaded n program) (latch a) (Loaded n program) := by
  intro m h
  by_cases hin : 0 ≤ a.toInt ∧ a.toInt ≤ m.size
  · simp only [latch, if_pos hin]
    exact h.addressed (by omega)
  · simp only [latch, if_neg hin]
    exact h

theorem leads_read : Leads (Loaded n program) read (Loaded n program) := by
  intro m h
  rcases h.read_cases with ⟨-, c, rest, -, hr⟩ | ⟨-, -, w, -, hr⟩ | ⟨t, hr⟩
  all_goals rw [hr]
  · exact h.consumed c rest
  · exact h
  · exact h

theorem leads_write (w : Word) : Leads (Loaded n program) (write w) (Loaded n program) := by
  intro m h
  rcases h.write_cases w with ⟨-, hr⟩ | ⟨-, hlt, hr⟩ | ⟨t, hr⟩
  all_goals rw [hr]
  · exact h.emitted w
  · exact h.stored hlt w
  · exact h

end Microstack.Memory
