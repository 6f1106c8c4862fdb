/-
# `Microstack.Proofs.Store` — memory is what was last written, with a queue at either port

Calls are made of a memory that was just created, in any order and any number, those that fail
included.  A call that completes is journalled with the address that was latched at the time and
with what it answered (`Entry`), and of such a journal three lists are taken:

    latches es        the addresses that were latched
    readsAt a es      the words that were read at an address
    writesAt a es     the words that were written there

The memory that the calls leave is a function of these lists, the data words and the input
(`Store`).  A data address shows the last word of `writesAt`, and the data word under it if there
is none; `readsAt` of the input port is the codes of the characters that have left the input, and
the output is the tokens of `writesAt` of the output port.
-/
import Microstack.Proofs.Journal
import Microstack.Proofs.Memory

namespace Microstack.Memory

/-! ## Calls and their journal -/

inductive Call
  | latch (a : Word)
  | read
  | write (w : Word)
  | fetch (pc : Nat)

inductive Answer
  | done
  | word (w : Word)
  | instruction (i : Instruction)

def Call.perform : Call → Action Answer
  | latch a => Memory.latch a >>= fun _ => pure .done
  | read => Memory.read >>= fun w => pure (.word w)
  | write w => Memory.write w >>= fun _ => pure .done
  | fetch pc => look fun m => ((m.fetch pc).map Answer.instruction).mapError Trap.fault

/-- A call that completed. -/
structure Entry where
  /-- The address that was latched before. -/
  address : Nat
  call : Call
  answer : Answer

namespace Entry

def of (m : Memory) (call : Call) (answer : Answer) : Entry := ⟨m.address, call, answer⟩

def latched? : Entry → Option Nat
  | ⟨_, .latch a, _⟩ => some a.toInt.toNat
  | _ => none

def read? (a : Nat) : Entry → Option Word
  | ⟨b, .read, .word w⟩ => if b = a then some w else none
  | _ => none

def written? (a : Nat) : Entry → Option Word
  | ⟨b, .write w, _⟩ => if b = a then some w else none
  | _ => none

end Entry

/-- The entries of the calls that complete, made of a memory. -/
def entries (calls : List Call) (m : Memory) : List Entry := journal Entry.of Call.perform calls m

def latches (es : List Entry) : List Nat := es.filterMap Entry.latched?

def readsAt (a : Nat) (es : List Entry) : List Word := es.filterMap (Entry.read? a)

def writesAt (a : Nat) (es : List Entry) : List Word := es.filterMap (Entry.written? a)

/-- What a memory holds that was created with data words and an input, and of which the calls of
a journal were made. -/
structure Holds (programStart : Nat) (data : List Word) (input : List Char) (es : List Entry)
    (m : Memory) : Prop where
  address : m.address = (latches es).getLastD 0
  /-- The cell of the input port is for what was read there. -/
  inputWord : m.peek? 0 = some ((readsAt 0 es).getLastD (data.getD 0 0))
  /-- The cell of the output port is for what was written there, as at a data address. -/
  word : ∀ a, 1 ≤ a → a < programStart →
    m.peek? a = some ((writesAt a es).getLastD (data.getD a 0))
  input : ∃ taken, input = taken ++ m.input ∧ readsAt 0 es = taken.map Word.ofChar
  output : m.output.toList = (writesAt 1 es).map token

/-- A memory that answers as its journal says. -/
structure Store (n : Nat) (program : List Instruction) (data : List Word) (input : List Char)
    (es : List Entry) (m : Memory) : Prop
    extends Holds (n - program.length) data input es m where
  latch_completes : ∀ a, (∃ m', latch a m = .ok () m') ↔ 0 ≤ a.toInt ∧ a.toInt ≤ n
  read_completes : (∃ w m', read m = .ok w m') ↔
    (m.address = 0 ∧ m.input ≠ []) ∨ (2 ≤ m.address ∧ m.address < n - program.length)
  write_completes : ∀ w, (∃ m', write w m = .ok () m') ↔
    m.address = 1 ∨ (2 ≤ m.address ∧ m.address < n - program.length)
  /-- At a data address the word that was written last is read, or else the data word. -/
  read_eq : ∀ w m', 2 ≤ m.address → read m = .ok w m' →
    w = (writesAt m.address es).getLastD (data.getD m.address 0)
  fetch_eq : ∀ pc i, program[pc]? = some i → m.fetch pc = .ok i
  failed : ∀ (c : Call) t m', c.perform m = .error t m' → m' = m

variable {m m' : Memory} {n start : Nat} {program : List Instruction} {data : List Word}
  {input : List Char} {es : List Entry} {w : Word}

/-! ## One entry more -/

/-- What an entry says of the memory before the call and after it. -/
structure Entry.Tells (e : Entry) (m m' : Memory) : Prop where
  address : m'.address = e.latched?.getD m.address
  inputWord : m'.peek? 0 = (e.read? 0).or (m.peek? 0)
  word : ∀ a, 1 ≤ a → m'.peek? a = (e.written? a).or (m.peek? a)
  input : ∃ taken, m.input = taken ++ m'.input ∧ (e.read? 0).toList = taken.map Word.ofChar
  output : m'.output.toList = m.output.toList ++ (e.written? 1).toList.map token

theorem getLastD_append_toList {α : Type} (as : List α) (o : Option α) (d : α) :
    (as ++ o.toList).getLastD d = o.getD (as.getLastD d) := by
  cases o with
  | none => rw [Option.toList_none, List.append_nil, Option.getD_none]
  | some a => exact List.getLastD_concat

theorem some_getD {α : Type} (o : Option α) (d : α) : some (o.getD d) = o.or (some d) := by
  cases o with
  | none => rfl
  | some a => rfl

theorem Holds.concat (h : Holds start data input es m) {e : Entry} (he : e.Tells m m') :
    Holds start data input (es ++ [e]) m' where
  address := by
    rw [latches, filterMap_concat, getLastD_append_toList, he.address, h.address]
    rfl
  inputWord := by
    rw [readsAt, filterMap_concat, getLastD_append_toList, some_getD, he.inputWord, h.inputWord]
    rfl
  word := by
    intro a hport hlt
    rw [writesAt, filterMap_concat, getLastD_append_toList, some_getD, he.word a hport,
      h.word a hport hlt]
    rfl
  input := by
    obtain ⟨taken, hinput, hreads⟩ := h.input
    obtain ⟨more, hmore, hread⟩ := he.input
    refine ⟨taken ++ more, ?_, ?_⟩
    · rw [hinput, hmore, List.append_assoc]
    · rw [readsAt, filterMap_concat, hread, List.map_append, ← hreads, readsAt]
  output := by
    rw [writesAt, filterMap_concat, List.map_append, he.output, h.output, writesAt]

namespace Entry

/-- A call that is of no port, latches nothing and writes nothing leaves the memory as it was. -/
theorem tells_idle {e : Entry} (hlatched : e.latched? = none) (hread : e.read? 0 = none)
    (hwritten : ∀ a, e.written? a = none) (m : Memory) : e.Tells m m where
  address := by rw [hlatched, Option.getD_none]
  inputWord := by rw [hread, Option.none_or]
  word := by
    intro a _
    rw [hwritten, Option.none_or]
  input := ⟨[], rfl, by rw [hread]; rfl⟩
  output := by
    rw [hwritten]
    exact (List.append_nil _).symm

theorem tells_addressed (m : Memory) (a : Word) :
    Tells ⟨m.address, .latch a, .done⟩ m (m.addressed a.toInt.toNat) where
  address := rfl
  inputWord := rfl
  word _ _ := rfl
  input := ⟨[], rfl, rfl⟩
  output := (List.append_nil _).symm

theorem tells_consumed (h0 : m.address = 0) (hsize : 0 < m.size) {c : Char} {rest : List Char}
    (hin : m.input = c :: rest) :
    Tells ⟨m.address, .read, .word (Word.ofChar c)⟩ m (m.consumed c rest) := by
  have hread : read? 0 ⟨m.address, .read, .word (Word.ofChar c)⟩ = some (Word.ofChar c) :=
    if_pos h0
  constructor
  case address => rfl
  case inputWord =>
    rw [hread]
    exact peek?_stored_self hsize
  case word =>
    intro a hport
    exact peek?_stored_ne (Nat.ne_of_gt hport)
  case input => exact ⟨[c], hin, by rw [hread]; rfl⟩
  case output => exact (List.append_nil _).symm

theorem peek?_stored_eq_or (hlt : m.address < m.size) (answer : Answer) (b : Nat) :
    (m.stored m.address w).peek? b =
      (written? b ⟨m.address, .write w, answer⟩).or (m.peek? b) := by
  by_cases hb : m.address = b
  · rw [written?, if_pos hb, ← hb, peek?_stored_self hlt, Option.some_or]
  · rw [written?, if_neg hb, peek?_stored_ne (Ne.symm hb), Option.none_or]

theorem tells_emitted (h1 : m.address = 1) (hsize : m.address < m.size) (w : Word) :
    Tells ⟨m.address, .write w, .done⟩ m (m.emitted w) := by
  have hpeek : ∀ b, (m.emitted w).peek? b = (m.stored m.address w).peek? b := by
    rw [h1]
    exact fun b => rfl
  constructor
  case address => rfl
  case inputWord =>
    rw [hpeek]
    exact peek?_stored_ne (by omega)
  case word =>
    intro a _
    rw [hpeek]
    exact peek?_stored_eq_or hsize .done a
  case input => exact ⟨[], rfl, rfl⟩
  case output =>
    rw [written?, if_pos h1]
    exact Array.toList_push

theorem tells_stored (hport : 2 ≤ m.address) (hsize : m.address < m.size) (w : Word) :
    Tells ⟨m.address, .write w, .done⟩ m (m.stored m.address w) where
  address := rfl
  inputWord := peek?_stored_ne (by omega)
  word a _ := peek?_stored_eq_or hsize .done a
  input := ⟨[], rfl, rfl⟩
  output := by
    rw [written?, if_neg (by omega)]
    exact (List.append_nil _).symm

end Entry

/-! ## Calls -/

theorem leads_perform (c : Call) : Leads (Loaded n program) c.perform (Loaded n program) := by
  cases c with
  | latch a => exact (leads_latch a).bind fun _ => Leads.pure _
  | read => exact leads_read.bind fun _ => Leads.pure _
  | write w => exact (leads_write w).bind fun _ => Leads.pure _
  | fetch pc => exact leads_look _

/-- What a call answers, with the address it was made at, says what the call has done. -/
theorem Loaded.tells (h : m.Loaded n program) {c : Call} {answer : Answer}
    (hc : c.perform m = .ok answer m') : (Entry.of m c answer).Tells m m' := by
  have hstart := h.start_le
  have htwo := h.two_lt
  cases c with
  | latch a =>
    obtain ⟨u, hlatch, rfl⟩ := bind_pure_eq_ok_iff.1 hc
    obtain ⟨-, -, rfl⟩ := latch_eq_ok_iff.1 hlatch
    exact Entry.tells_addressed m a
  | read =>
    obtain ⟨w, hread, rfl⟩ := bind_pure_eq_ok_iff.1 hc
    rcases h.read_eq_ok_iff.1 hread with ⟨h0, c, rest, hin, rfl, rfl⟩ | ⟨hport, -, -, rfl⟩
    · exact Entry.tells_consumed h0 (by omega) hin
    · -- The word was read elsewhere, so the input port has nothing to do with it.
      have hread : (Entry.of m' .read (.word w)).read? 0 = none := if_neg (by omega)
      exact Entry.tells_idle rfl hread (fun _ => rfl) m'
  | write w =>
    obtain ⟨u, hwrite, rfl⟩ := bind_pure_eq_ok_iff.1 hc
    rcases h.write_eq_ok_iff.1 hwrite with ⟨h1, rfl⟩ | ⟨hport, hlt, rfl⟩
    · exact Entry.tells_emitted h1 (by omega) w
    · exact Entry.tells_stored hport (by omega) w
  | fetch pc =>
    simp only [Call.perform] at hc
    obtain ⟨-, rfl⟩ := look_eq_ok_iff.1 hc
    have hread : (Entry.of m' (.fetch pc) answer).read? 0 = none := rfl
    exact Entry.tells_idle rfl hread (fun _ => rfl) m'

theorem eq_of_perform_error {c : Call} {t : Trap} (hc : c.perform m = .error t m') : m' = m := by
  cases c with
  | latch a => exact eq_of_latch_error (bind_pure_eq_error_iff.1 hc)
  | read => exact eq_of_read_error (bind_pure_eq_error_iff.1 hc)
  | write w => exact eq_of_write_error (bind_pure_eq_error_iff.1 hc)
  | fetch pc =>
    simp only [Call.perform] at hc
    exact eq_of_look_error hc

/-! ## Any number of calls -/

theorem holds_create (h : create n program data input = .ok m) :
    Holds (n - program.length) data input [] m := by
  have hstart : m.programStart = n - program.length := by rw [eq_of_create h]
  have hloaded := loaded_of_create h
  have hpeek : ∀ a, a < n - program.length → m.peek? a = some (data.getD a 0) :=
    fun a ha => peek?_create h (hstart ▸ ha)
  have htwo := hstart ▸ hloaded.two_lt
  refine ⟨?_, hpeek 0 (by omega), fun a _ ha => hpeek a ha, ⟨[], ?_, rfl⟩, ?_⟩
  all_goals rw [eq_of_create h]
  · rfl
  · rfl
  · rfl

theorem Loaded.holds_entries (hloaded : m.Loaded n program)
    (hholds : Holds start data input [] m) (calls : List Call) :
    Holds start data input (entries calls m) (leavesAll Call.perform calls m) := by
  -- An entry tells what its call did to a loaded memory only, so both facts go along.
  have hstep : ∀ es s c answer s', s.Loaded n program ∧ Holds start data input es s →
      c.perform s = .ok answer s' →
      s'.Loaded n program ∧ Holds start data input (es ++ [Entry.of s c answer]) s' :=
    fun es s c answer s' h hc => ⟨(leads_perform c).ok h.1 hc, h.2.concat (h.1.tells hc)⟩
  have hfail : ∀ es s c t s', s.Loaded n program ∧ Holds start data input es s →
      Call.perform c s = .error t s' → s'.Loaded n program ∧ Holds start data input es s' :=
    fun es s c t s' h hc => (eq_of_perform_error hc).symm ▸ h
  exact (journal_keeps hstep hfail calls ⟨hloaded, hholds⟩).2

/-- A memory that is loaded, and holds what its journal says, answers as it says. -/
theorem Loaded.store (h : m.Loaded n program) (hholds : Holds (n - program.length) data input es m) :
    Store n program data input es m := by
  have hsize := h.size_eq
  have hstart : m.programStart = n - program.length := by
    have := h.start_add_length
    omega
  constructor
  case toHolds => exact hholds
  case latch_completes =>
    intro a
    simp only [latch_eq_ok_iff, hsize]
    exact ⟨fun ⟨_, h0, h1, _⟩ => ⟨h0, h1⟩, fun ⟨h0, h1⟩ => ⟨_, h0, h1, rfl⟩⟩
  case read_completes =>
    rw [← hstart]
    constructor
    · rintro ⟨w, m', hread⟩
      rcases h.read_eq_ok_iff.1 hread with ⟨h0, c, rest, hin, -⟩ | ⟨hport, hlt, -⟩
      · exact .inl ⟨h0, by rw [hin]; exact List.cons_ne_nil c rest⟩
      · exact .inr ⟨hport, hlt⟩
    · rintro (⟨h0, hne⟩ | ⟨hport, hlt⟩)
      · obtain ⟨c, rest, hin⟩ := List.exists_cons_of_ne_nil hne
        exact ⟨_, _, read_input h0 hin⟩
      · obtain ⟨w, hw⟩ := h.exists_peek? hlt
        exact ⟨w, m, h.read_data hport hlt hw⟩
  case write_completes =>
    intro w
    rw [← hstart]
    constructor
    · rintro ⟨m', hwrite⟩
      rcases h.write_eq_ok_iff.1 hwrite with ⟨h1, -⟩ | ⟨hport, hlt, -⟩
      · exact .inl h1
      · exact .inr ⟨hport, hlt⟩
    · rintro (h1 | ⟨hport, hlt⟩)
      · exact ⟨_, write_output h1⟩
      · exact ⟨_, h.write_data hport hlt⟩
  case read_eq =>
    intro w m' hport hread
    rcases h.read_eq_ok_iff.1 hread with ⟨h0, -⟩ | ⟨-, hlt, hw, -⟩
    · omega
    · exact Option.some.inj (hw.symm.trans (hholds.word _ (by omega) (hstart ▸ hlt)))
  case fetch_eq => exact fun pc i hi => h.fetch_eq_ok_iff.2 hi
  case failed => exact fun c t m' hc => eq_of_perform_error hc

/-- Whatever is called of a new memory, it answers as the journal of its calls says. -/
theorem memory_answers_as_journalled (h : create n program data input = .ok m) (calls : List Call) :
    Store n program data input (entries calls m) (leavesAll Call.perform calls m) := by
  have hloaded := loaded_of_create h
  exact (Leads.leavesAll leads_perform calls hloaded).store
    (hloaded.holds_entries (holds_create h) calls)

/-- Calls at both ports and at a data address, and calls that fail: the input is at its end, the
output port is read, and a word is written over the program text. -/
def session : List Call :=
  [.latch (.wrap 2), .write (.wrap 9), .latch 0, .read, .read, .latch (.wrap 1), .write (.wrap 66),
    .read, .latch (.wrap 129), .write (.wrap 1), .latch (.wrap 2), .write (.wrap 10)]

/-- What was read and written in the session is what is there afterwards. -/
theorem memory_answers_as_journalled_session :
    ∃ m, create 130 [⟨.halt, none, none⟩] [.wrap 5, .wrap 6, .wrap 7] ['A'] = .ok m ∧
      Store 130 [⟨.halt, none, none⟩] [.wrap 5, .wrap 6, .wrap 7] ['A'] (entries session m)
        (leavesAll Call.perform session m) ∧
      readsAt 0 (entries session m) = [.wrap 65] ∧
      writesAt 2 (entries session m) = [.wrap 9, .wrap 10] ∧
      (leavesAll Call.perform session m).peek? 2 = some (.wrap 10) ∧
      (leavesAll Call.perform session m).output.toList = ["B"] := by
  have hcreate : create 130 [⟨.halt, none, none⟩] [.wrap 5, .wrap 6, .wrap 7] ['A'] =
      .ok ⟨(image 130 [⟨.halt, none, none⟩] [.wrap 5, .wrap 6, .wrap 7]).toArray, 0, 129, ['A'],
        #[]⟩ := rfl
  have hstore := memory_answers_as_journalled hcreate session
  refine ⟨_, hcreate, hstore, by decide +kernel, by decide +kernel, ?_, ?_⟩
  · rw [hstore.word 2 (by decide) (by decide)]
    decide +kernel
  · rw [hstore.output]
    decide +kernel

end Microstack.Memory
