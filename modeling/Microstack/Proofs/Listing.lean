/-
# `Microstack.Proofs.Listing` — a listing is read back line by line

A listing names the target of every jump with a label, and defines the labels of all
program counters from the first instruction to the end of the program:

    program                    listing               assembled
    0  PUSH 1                  L0:                   0  PUSH 1
    1  JMP 0                       PUSH 1            1  JMP 0
                                   JMP L0

A jump to a program counter beyond the end is written with a label too, but no line
defines it, so such a listing is not assembled at all.  `Program.Listable` is the
condition under which everything comes back; that it is exact is shown in
`Microstack.Proofs.Reassembly`, where the labels are resolved.

The listing is read line by line.  `Progress` says what the draft holds on the way:
the instructions listed so far, and the labels of the program counters up to here.
-/
import Microstack.Assembly.Listing
import Microstack.Proofs.Assembly
import Microstack.Proofs.SymbolTable

namespace Microstack

/-! ## What a listing keeps -/

namespace Instruction

/-- The instruction with a context, and nothing else in its term. -/
def withContext (i : Instruction) (context : String) : Instruction :=
  { i with term := some ⟨0, context, ""⟩ }

/-- The instruction without the line and the text of its term. -/
def core (i : Instruction) : Instruction := i.withContext i.context

/-- What a listing keeps of an instruction: its context loses the white space around
it. -/
def listed (i : Instruction) : Instruction :=
  i.withContext (String.ofList (Text.trim i.context.toList))

theorem listed_eq_core {i : Instruction} (h : Text.trim i.context.toList = i.context.toList) :
    i.listed = i.core := by
  rw [listed, h, String.ofList_toList, core]

end Instruction

/-- The condition for a program to come back from its listing. -/
structure Program.Listable (p : Program) : Prop where
  /-- An argument is there exactly if the operation takes one. -/
  argument : ∀ i ∈ p.instructions, i.argument.isSome = i.opcode.takesArgument
  /-- No jump goes beyond the end of the program. -/
  target : ∀ i ∈ p.instructions, i.opcode.isJump = true → ∀ n : Word,
    i.argument = some (.number n) → 0 ≤ n.toInt → n.toInt ≤ p.length

namespace Listing

open Assembly (Operand Pending Draft)

variable {p : Program} {i : Instruction}

/-! ## Targets and their labels -/

theorem jumpTarget?_eq_some_iff {pc : Nat} :
    jumpTarget? i = some pc ↔ i.opcode.isJump = true ∧
      ∃ n, i.argument = some (.number n) ∧ 0 ≤ n.toInt ∧ pc = n.toInt.toNat := by
  rw [← i.target_eq_ok_iff, jumpTarget?]
  by_cases hjump : i.opcode.isJump = true
  · rw [if_pos hjump]
    cases i.target with
    | ok k => simp [hjump]
    | error f => simp
  · simp [hjump]

/-- The program counters that some jump lands on. -/
def targets (p : Program) : List Nat := p.instructions.filterMap jumpTarget?

theorem mem_targets {pc : Nat} : pc ∈ targets p ↔ ∃ i ∈ p.instructions, jumpTarget? i = some pc :=
  List.mem_filterMap

theorem label_toList (pc : Nat) : (label pc).toList = 'L' :: Numeral.decimal pc := by
  simp [label, Numeral.ofNat]

theorem label_injective {m n : Nat} (h : label m = label n) : m = n := by
  have hdigits := congrArg String.toList h
  rw [label_toList, label_toList] at hdigits
  rw [← Numeral.value_decimal m, (List.cons.inj hdigits).2, Numeral.value_decimal]

theorem isNamePart_of_isDigit {c : Char} (h : c.isDigit = true) : Assembly.isNamePart c = true := by
  simp [Assembly.isNamePart, Char.isAlphanum, h]

theorem isName_label (pc : Nat) : Assembly.isName (label pc).toList = true := by
  rw [label_toList, Assembly.isName_cons]
  refine ⟨rfl, ?_⟩
  intro c hc
  exact isNamePart_of_isDigit (Numeral.isDigit_of_mem_decimal hc)

/-- The table has the labels of the marked program counters, and no others. -/
structure Marks (t : SymbolTable) (marked : Nat → Prop) : Prop where
  address : ∀ l pc, t.address? l = some pc ↔ l = label pc ∧ marked pc
  label : ∀ pc l, t.label? pc = some l ↔ l = label pc ∧ marked pc

namespace Marks

variable {t : SymbolTable} {marked : Nat → Prop} {pc : Nat}

theorem empty : Marks SymbolTable.empty fun _ => False where
  address l pc := by simp
  label pc l := by simp

theorem congr {marked' : Nat → Prop} (h : Marks t marked) (heq : ∀ k, marked k ↔ marked' k) :
    Marks t marked' where
  address l pc := by rw [h.address, heq]
  label pc l := by rw [h.label, heq]

theorem label?_of_marked (h : Marks t marked) (hpc : marked pc) :
    t.label? pc = some (Listing.label pc) :=
  (h.label pc _).2 ⟨rfl, hpc⟩

theorem label?_of_not_marked (h : Marks t marked) (hpc : ¬ marked pc) : t.label? pc = none := by
  rw [Option.eq_none_iff_forall_ne_some]
  intro l hl
  exact hpc ((h.label pc l).1 hl).2

theorem address?_of_not_marked (h : Marks t marked) (hpc : ¬ marked pc) :
    t.address? (Listing.label pc) = none := by
  rw [Option.eq_none_iff_forall_ne_some]
  intro k hk
  obtain ⟨hlabel, hmarked⟩ := (h.address _ k).1 hk
  rw [label_injective hlabel] at hpc
  exact hpc hmarked

theorem insert?_of_marked (h : Marks t marked) (hpc : marked pc) :
    t.insert? (Listing.label pc) pc = none := by
  rw [SymbolTable.insert?_eq_none_iff, (h.address _ pc).2 ⟨rfl, hpc⟩]
  simp

theorem insert? (h : Marks t marked) (hpc : ¬ marked pc) :
    ∃ t', t.insert? (Listing.label pc) pc = some t' ∧ Marks t' fun k => marked k ∨ k = pc := by
  cases hinsert : t.insert? (Listing.label pc) pc with
  | none => exact absurd (h.address?_of_not_marked hpc) (SymbolTable.insert?_eq_none_iff.1 hinsert)
  | some t' =>
    refine ⟨t', rfl, ?_, ?_⟩
    · intro l k
      rw [SymbolTable.address?_insert? hinsert]
      by_cases hl : l = Listing.label pc
      · subst hl
        rw [if_pos rfl, Option.some.injEq]
        constructor
        · rintro rfl
          exact ⟨rfl, .inr rfl⟩
        · rintro ⟨hlabel, -⟩
          exact label_injective hlabel
      · rw [if_neg hl, h.address]
        constructor
        · rintro ⟨rfl, hk⟩
          exact ⟨rfl, .inl hk⟩
        · rintro ⟨rfl, hk | rfl⟩
          · exact ⟨rfl, hk⟩
          · exact absurd rfl hl
    · intro k l
      rw [SymbolTable.label?_insert? hinsert]
      by_cases hk : k = pc
      · subst hk
        rw [h.label?_of_not_marked hpc, Option.none_or, if_pos rfl, Option.some.injEq]
        constructor
        · rintro rfl
          exact ⟨rfl, .inr rfl⟩
        · rintro ⟨rfl, -⟩
          rfl
      · rw [if_neg hk, Option.or_none, h.label]
        constructor
        · rintro ⟨rfl, hmarked⟩
          exact ⟨rfl, .inl hmarked⟩
        · rintro ⟨rfl, hmarked | rfl⟩
          · exact ⟨rfl, hmarked⟩
          · exact absurd rfl hk

theorem foldl (h : Marks t marked) (pcs : List Nat) :
    Marks (pcs.foldl (fun table pc => (table.insert? (Listing.label pc) pc).getD table) t)
      fun k => marked k ∨ k ∈ pcs := by
  induction pcs generalizing t marked with
  | nil => exact h.congr fun k => by simp
  | cons pc pcs ih =>
    rw [List.foldl_cons]
    by_cases hpc : marked pc
    · rw [h.insert?_of_marked hpc, Option.getD_none]
      refine (ih h).congr fun k => ?_
      rw [List.mem_cons]
      constructor
      · rintro (hk | hk)
        · exact .inl hk
        · exact .inr (.inr hk)
      · rintro (hk | rfl | hk)
        · exact .inl hk
        · exact .inl hpc
        · exact .inr hk
    · obtain ⟨t', ht', hmarks⟩ := h.insert? hpc
      rw [ht', Option.getD_some]
      refine (ih hmarks).congr fun k => ?_
      rw [List.mem_cons, or_assoc]

end Marks

theorem marks_symbols (p : Program) : Marks (symbols p) (· ∈ targets p) :=
  (Marks.empty.foldl (targets p)).congr fun k => by simp

/-! ## The lines of a listing -/

/-- The operand that an instruction is written with. -/
def written (i : Instruction) : Option Operand :=
  match jumpTarget? i with
  | some pc => some (.label (label pc))
  | none => i.argument.map .literal

theorem named_written {x : Operand} (h : written i = some x) : x.Named := by
  unfold written at h
  split at h
  · next pc _ =>
    cases h
    exact isName_label pc
  · obtain ⟨arg, -, rfl⟩ := Option.map_eq_some_iff.1 h
    trivial

theorem isSome_written (h : i.argument.isSome = i.opcode.takesArgument) :
    (written i).isSome = i.opcode.takesArgument := by
  rw [← h, written]
  cases htarget : jumpTarget? i with
  | none => exact Option.isSome_map
  | some pc =>
    obtain ⟨-, n, hn, -⟩ := jumpTarget?_eq_some_iff.1 htarget
    rw [hn]
    rfl

theorem operation_toList (hi : i ∈ p.instructions) :
    (operation (symbols p) i).toList =
      i.opcode.mnemonic.toList ++ Assembly.operandText (written i) := by
  rw [operation, written]
  cases htarget : jumpTarget? i with
  | none =>
    simp only [Option.bind_none]
    rw [Instruction.text]
    cases i.argument with
    | none =>
      simp only [Option.map_none, Assembly.operandText, List.append_nil]
    | some arg =>
      simp only [Option.map_some, Assembly.operandText, Operand.text, String.toList_append,
        List.append_assoc]
      rfl
  | some pc =>
    have hmarked : pc ∈ targets p := mem_targets.2 ⟨i, hi, htarget⟩
    simp only [Option.bind_some, (marks_symbols p).label?_of_marked hmarked, Assembly.operandText,
      Operand.text, String.toList_append, List.append_assoc]
    rfl

/-- The characters stay on one line. -/
def OneLine (cs : List Char) : Prop := '\n' ∉ cs ∧ '\r' ∉ cs

instance (cs : List Char) : Decidable (OneLine cs) := inferInstanceAs (Decidable (_ ∧ _))

theorem OneLine.append {cs ds : List Char} (hcs : OneLine cs) (hds : OneLine ds) :
    OneLine (cs ++ ds) := by
  constructor
  · rw [List.mem_append, not_or]
    exact ⟨hcs.1, hds.1⟩
  · rw [List.mem_append, not_or]
    exact ⟨hcs.2, hds.2⟩

theorem OneLine.cons {c : Char} {cs : List Char} (hc : OneLine [c]) (hcs : OneLine cs) :
    OneLine (c :: cs) :=
  hc.append hcs

theorem oneLine_of_class {q : Char → Bool} (hfeed : q '\n' = false) (hreturn : q '\r' = false)
    {cs : List Char} (h : ∀ c ∈ cs, q c = true) : OneLine cs := by
  constructor
  · intro hmem
    rw [h _ hmem] at hfeed
    cases hfeed
  · intro hmem
    rw [h _ hmem] at hreturn
    cases hreturn

theorem oneLine_of_isName {cs : List Char} (h : Assembly.isName cs = true) : OneLine cs :=
  oneLine_of_class (q := Assembly.isNamePart) (by decide) (by decide)
    fun _ => Assembly.isNamePart_of_mem h

theorem oneLine_integer (n : Int) : OneLine (Numeral.integer n) := by
  have hdecimal (n : Nat) : OneLine (Numeral.decimal n) :=
    oneLine_of_class (q := Char.isDigit) (by decide) (by decide)
      fun _ => Numeral.isDigit_of_mem_decimal
  cases n with
  | ofNat n => exact hdecimal n
  | negSucc n => exact OneLine.cons (by decide) (hdecimal (n + 1))

theorem oneLine_literal (c : Char) : OneLine (Glyph.literal c) := by
  have hescaped : OneLine (Glyph.escaped c) := by
    unfold Glyph.escaped
    split
    · decide
    split
    · decide
    split
    · decide
    split
    · decide
    split
    · decide
    split
    · decide
    split
    · next hreturn hfeed _ _ _ _ =>
      simp only [OneLine, List.mem_singleton]
      exact ⟨Ne.symm hfeed, Ne.symm hreturn⟩
    · have hhex : OneLine (Numeral.hex c.toNat) :=
        oneLine_of_class (q := Numeral.isHexDigit) (by decide) (by decide)
          fun _ => Numeral.isHexDigit_of_mem_hex
      exact (OneLine.append (by decide) hhex).append (by decide)
  exact OneLine.cons (by decide) (hescaped.append (by decide))

theorem oneLine_operandText (i : Instruction) : OneLine (Assembly.operandText (written i)) := by
  rw [written]
  cases jumpTarget? i with
  | some pc => exact OneLine.cons (by decide) (oneLine_of_isName (isName_label pc))
  | none =>
    cases i.argument with
    | none => exact (by decide : OneLine [])
    | some arg =>
      refine OneLine.cons (by decide) ?_
      rw [Operand.text, Argument.text, String.toList_ofList]
      cases arg with
      | number n => exact oneLine_integer n.toInt
      | char c => exact oneLine_literal c

theorem isName_mnemonic (op : Opcode) : Assembly.isName op.mnemonic.toList = true := by
  cases op <;> decide

theorem operation?_mnemonic (op : Opcode) : Assembly.operation? op.mnemonic = some op := by
  cases op <;> decide

theorem instructionLine_toList (hi : i ∈ p.instructions) :
    ∃ k, (instructionLine (symbols p) i).toList =
      List.replicate 4 ' ' ++ (i.opcode.mnemonic.toList ++ (Assembly.operandText (written i) ++
        if i.context.isEmpty then [] else List.replicate k ' ' ++ '#' :: ' ' :: i.context.toList)) := by
  have hspaces : ("    " : String).toList = List.replicate 4 ' ' := by decide
  refine ⟨commentColumn - (operation (symbols p) i).length, ?_⟩
  rw [instructionLine]
  cases hterm : i.term with
  | none =>
    have hempty : i.context.isEmpty = true := by
      rw [Instruction.context, hterm]
      decide
    simp only [hempty, if_true, String.toList_append, hspaces, operation_toList hi,
      List.append_nil]
  | some term =>
    have hcontext : i.context = term.context := by
      rw [Instruction.context, hterm]
      rfl
    rw [hcontext]
    cases hempty : term.context.isEmpty with
    | true =>
      simp only [hempty, if_true, String.toList_append, hspaces, operation_toList hi,
        List.append_nil]
    | false =>
      simp only [hempty, Bool.false_eq_true, if_false, padded, String.toList_append, hspaces,
        operation_toList hi, String.toList_ofList, List.append_assoc]
      rfl

/-- The line of an instruction is read as the instruction. -/
theorem parse?_instructionLine (hi : i ∈ p.instructions) (hfeed : '\n' ∉ i.context.toList) :
    '\n' ∉ (instructionLine (symbols p) i).toList ∧
      ∃ comment, Assembly.Line.parse? (Text.chomp (instructionLine (symbols p) i).toList) =
          some { label := none, statement := some (.instruction i.opcode.mnemonic (written i)),
                 comment } ∧
        Text.trim (comment.getD "").toList = Text.trim i.context.toList := by
  obtain ⟨k, hline⟩ := instructionLine_toList hi
  have hname := isName_mnemonic i.opcode
  have hbody : OneLine (List.replicate 4 ' ' ++
      (i.opcode.mnemonic.toList ++ Assembly.operandText (written i))) :=
    OneLine.append (by decide) ((oneLine_of_isName hname).append (oneLine_operandText i))
  rw [hline]
  cases hempty : i.context.isEmpty with
  | true =>
    rw [if_pos rfl, List.append_nil, Text.chomp_of_not_mem hbody.2]
    refine ⟨hbody.1, none, ?_, ?_⟩
    · have hparse := Assembly.parse?_instruction hname (fun _ => named_written (i := i)) .empty 4
      rwa [List.append_nil] at hparse
    · rw [String.isEmpty_iff] at hempty
      rw [hempty]
      rfl
  | false =>
    rw [if_neg Bool.false_ne_true]
    -- The comment starts behind the sign; all before it is on one line.
    have hcut : List.replicate 4 ' ' ++ (i.opcode.mnemonic.toList ++
        (Assembly.operandText (written i) ++
          (List.replicate k ' ' ++ '#' :: ' ' :: i.context.toList))) =
        (List.replicate 4 ' ' ++ (i.opcode.mnemonic.toList ++
          Assembly.operandText (written i)) ++ (List.replicate k ' ' ++ ['#'])) ++
            ' ' :: i.context.toList := by
      simp
    constructor
    · rw [hcut, List.mem_append, List.mem_append, not_or, not_or]
      refine ⟨⟨hbody.1, ?_⟩, ?_⟩
      · simp
      · rw [List.mem_cons, not_or]
        exact ⟨by decide, hfeed⟩
    · refine ⟨some (String.ofList (Text.chomp (' ' :: i.context.toList))), ?_, ?_⟩
      · rw [hcut, Text.chomp_append _ (List.cons_ne_nil _ _)]
        have hparse := Assembly.parse?_instruction hname (fun _ => named_written (i := i))
          (.comment k (Text.chomp (' ' :: i.context.toList))) 4
        simpa using hparse
      · rw [Option.getD_some, String.toList_ofList, Text.trim_chomp, Text.trim_cons (by decide)]

theorem label_line_toList (pc : Nat) : (label pc ++ ":").toList = (label pc).toList ++ [':'] := by
  rw [String.toList_append]
  rfl

theorem oneLine_label (pc : Nat) : OneLine (label pc ++ ":").toList := by
  rw [label_line_toList]
  exact (oneLine_of_isName (isName_label pc)).append (by decide)

theorem dataLine_toList (words : List Word) :
    (words.foldl (fun line w => line ++ " " ++ w.text) ".data").toList =
      ".data".toList ++ Assembly.dataText words := by
  have hfoldl (start : String) :
      (words.foldl (fun line w => line ++ " " ++ w.text) start).toList =
        start.toList ++ Assembly.dataText words := by
    induction words generalizing start with
    | nil => rw [List.foldl_nil, Assembly.dataText, List.flatMap_nil, List.append_nil]
    | cons w words ih =>
      rw [List.foldl_cons, ih]
      simp [Assembly.dataText, Word.text, Numeral.ofInt]
  exact hfoldl ".data"

theorem oneLine_dataText (words : List Word) : OneLine (Assembly.dataText words) := by
  induction words with
  | nil => decide
  | cons w words ih =>
    rw [Assembly.dataText, List.flatMap_cons]
    exact OneLine.append (OneLine.cons (by decide) (oneLine_integer w.toInt)) ih

/-! ## Reading the lines -/

def readLines (d : Draft) (ls : List String) (n : Nat) : Except Assembly.Error Draft :=
  ((ls.map fun l => Text.chomp l.toList).zipIdx n).foldlM Draft.readLine d

theorem readLines_append {d mid d' : Draft} {ls ls' : List String} {n : Nat}
    (h : readLines d ls n = .ok mid) (h' : readLines mid ls' (n + ls.length) = .ok d') :
    readLines d (ls ++ ls') n = .ok d' := by
  rw [readLines, List.map_append, List.zipIdx_append, List.foldlM_append, except_bind_eq_ok_iff]
  rw [List.length_map]
  exact ⟨mid, h, h'⟩

theorem readLines_singleton (d : Draft) (l : String) (n : Nat) :
    readLines d [l] n = d.readLine (Text.chomp l.toList, n) := by
  show (d.readLine (Text.chomp l.toList, n) >>= fun d => List.foldlM Draft.readLine d []) = _
  cases d.readLine (Text.chomp l.toList, n) with
  | error e => rfl
  | ok d' => rfl

/-- What is left of an instruction in a draft once it has been written and read. -/
def gist (i : Instruction) : Instruction × Option String :=
  match jumpTarget? i with
  | some pc => ({ i.listed with argument := none }, some (label pc))
  | none => (i.listed, none)

/-- An instruction of a draft, without the line and the text of its term. -/
def pendingGist (x : Pending) : Instruction × Option String := (x.instruction.core, x.label)

theorem pendingGist_pendingOf {comment : Option String}
    (h : Text.trim (comment.getD "").toList = Text.trim i.context.toList) (line : Nat)
    (m : String) :
    pendingGist (Assembly.pendingOf line i.opcode (written i)
      (Assembly.termOf line comment m (written i))) = gist i := by
  have hcontext (o : Option Operand) : (Assembly.termOf line comment m o).context =
      String.ofList (Text.trim i.context.toList) := congrArg String.ofList h
  rw [written, gist]
  cases htarget : jumpTarget? i with
  | some pc =>
    simp only [Assembly.pendingOf, pendingGist, Instruction.core, Instruction.context,
      Option.map_some, Option.getD_some, hcontext]
    rfl
  | none =>
    obtain ⟨opcode, argument, term⟩ := i
    cases argument with
    | none =>
      simp only [Option.map_none, Assembly.pendingOf, pendingGist, Instruction.core,
        Instruction.context, Option.map_some, Option.getD_some, hcontext]
      rfl
    | some arg =>
      simp only [Option.map_some, Assembly.pendingOf, pendingGist, Instruction.core,
        Instruction.context, Option.getD_some, hcontext]
      rfl

/-- What a draft holds once some instructions of a listing have been read, and the
labels of the program counters below a bound. -/
structure Progress (p : Program) (done : List Instruction) (bound : Nat) (d : Draft) : Prop where
  data : d.data = p.data
  pending : d.pending.toList.map pendingGist = done.map gist
  symbols : Marks d.symbols fun pc => pc ∈ targets p ∧ pc < bound

variable {d : Draft} {done : List Instruction}

theorem Progress.size {bound : Nat} (h : Progress p done bound d) :
    d.pending.size = done.length := by
  have hlength := congrArg List.length h.pending
  rwa [List.length_map, List.length_map, Array.length_toList] at hlength

theorem Progress.labelLine (h : Progress p done done.length d) (n : Nat) :
    ∃ d', readLines d (labelLine (Listing.symbols p) done.length) n = .ok d' ∧
      Progress p done (done.length + 1) d' := by
  rw [Listing.labelLine]
  by_cases hmem : done.length ∈ targets p
  · rw [(marks_symbols p).label?_of_marked hmem]
    have hnew : ¬ (done.length ∈ targets p ∧ done.length < done.length) := by omega
    obtain ⟨symbols, hinsert, hmarks⟩ := h.symbols.insert? hnew
    refine ⟨{ d with symbols }, ?_, h.data, h.pending, hmarks.congr fun k => ?_⟩
    · have hparse := Assembly.parse?_label (isName_label done.length)
      rw [← label_line_toList, ← Text.chomp_of_not_mem (oneLine_label done.length).2] at hparse
      rw [readLines_singleton]
      exact Draft.readLine_label hparse (by rw [h.size, hinsert]) n
    · constructor
      · rintro (⟨hk, hlt⟩ | rfl)
        · exact ⟨hk, by omega⟩
        · exact ⟨hmem, by omega⟩
      · rintro ⟨hk, hlt⟩
        by_cases heq : k = done.length
        · exact .inr heq
        · exact .inl ⟨hk, by omega⟩
  · rw [(marks_symbols p).label?_of_not_marked hmem]
    refine ⟨d, rfl, h.data, h.pending, h.symbols.congr fun k => ?_⟩
    constructor
    · rintro ⟨hk, hlt⟩
      exact ⟨hk, by omega⟩
    · rintro ⟨hk, hlt⟩
      have hne : k ≠ done.length := fun heq => hmem (heq ▸ hk)
      exact ⟨hk, by omega⟩

theorem Progress.instructionLine {bound : Nat} (h : Progress p done bound d)
    (hi : i ∈ p.instructions) (hargument : i.argument.isSome = i.opcode.takesArgument)
    (hfeed : '\n' ∉ i.context.toList) (n : Nat) :
    ∃ d', readLines d [instructionLine (Listing.symbols p) i] n = .ok d' ∧
      Progress p (done ++ [i]) bound d' := by
  obtain ⟨-, comment, hparse, htrim⟩ := parse?_instructionLine hi hfeed
  refine ⟨_, (readLines_singleton _ _ _).trans (Draft.readLine_instruction hparse
    (operation?_mnemonic i.opcode) (isSome_written hargument) n), h.data, ?_, h.symbols⟩
  simp only [Draft.pend, Array.toList_push, List.map_append, h.pending, List.map_cons,
    List.map_nil, pendingGist_pendingOf htrim]

theorem Progress.instructions {todo : List Instruction} (h : Progress p done done.length d)
    (hp : p.instructions = done ++ todo)
    (hargument : ∀ i ∈ p.instructions, i.argument.isSome = i.opcode.takesArgument)
    (hfeed : ∀ i ∈ p.instructions, '\n' ∉ i.context.toList) (n : Nat) :
    ∃ d', readLines d ((todo.zipIdx done.length).flatMap fun (i, pc) =>
        Listing.labelLine (Listing.symbols p) pc ++ [Listing.instructionLine (Listing.symbols p) i])
        n = .ok d' ∧
      Progress p p.instructions p.length d' := by
  induction todo generalizing done d n with
  | nil =>
    rw [List.append_nil] at hp
    refine ⟨d, rfl, ?_⟩
    rw [Program.length, hp]
    exact h
  | cons i todo ih =>
    have hi : i ∈ p.instructions := by
      rw [hp]
      simp
    obtain ⟨d₁, hread₁, h₁⟩ := h.labelLine n
    obtain ⟨d₂, hread₂, h₂⟩ := h₁.instructionLine hi (hargument i hi) (hfeed i hi)
      (n + (Listing.labelLine (Listing.symbols p) done.length).length)
    have hlength : (done ++ [i]).length = done.length + 1 := by simp
    rw [← hlength] at h₂
    obtain ⟨d', hread, h'⟩ := ih h₂ (by rw [hp]; simp)
      (n + (Listing.labelLine (Listing.symbols p) done.length ++
        [Listing.instructionLine (Listing.symbols p) i]).length)
    refine ⟨d', ?_, h'⟩
    rw [List.zipIdx_cons, List.flatMap_cons]
    rw [hlength] at hread
    exact readLines_append (readLines_append hread₁ hread₂) hread

theorem Progress.start (p : Program) :
    ∃ d, readLines {} (dataLine p) 1 = .ok d ∧ Progress p [] 0 d := by
  have hnone : Marks SymbolTable.empty fun pc => pc ∈ targets p ∧ pc < 0 :=
    Marks.empty.congr fun k => by simp
  rw [dataLine]
  cases hdata : p.data with
  | none => exact ⟨{}, rfl, hdata.symm, rfl, hnone⟩
  | some words =>
    refine ⟨{ data := some words }, ?_, hdata.symm, rfl, hnone⟩
    have hparse := Assembly.parse?_data words
    rw [← dataLine_toList, ← Text.chomp_of_not_mem (l := String.toList _)] at hparse
    · rw [readLines_singleton]
      exact Draft.readLine_data hparse rfl 1
    · rw [dataLine_toList]
      exact (OneLine.append (by decide) (oneLine_dataText words)).2

theorem not_mem_of_mem_lines (hfeed : ∀ i ∈ p.instructions, '\n' ∉ i.context.toList) {l : String}
    (hl : l ∈ lines p) : '\n' ∉ l.toList := by
  have hlabel {pc : Nat} (h : l ∈ labelLine (symbols p) pc) : '\n' ∉ l.toList := by
    unfold labelLine at h
    split at h
    · next target htarget =>
      obtain ⟨rfl, -⟩ := ((marks_symbols p).label pc target).1 htarget
      obtain rfl := List.mem_singleton.1 h
      exact (oneLine_label pc).1
    · cases h
  rw [lines, List.mem_append, List.mem_append] at hl
  rcases hl with (hl | hl) | hl
  · unfold dataLine at hl
    split at hl
    · next words _ =>
      obtain rfl := List.mem_singleton.1 hl
      rw [dataLine_toList]
      exact (OneLine.append (by decide) (oneLine_dataText words)).1
    · cases hl
  · obtain ⟨⟨i, pc⟩, hmem, hl⟩ := List.mem_flatMap.1 hl
    rw [List.mem_append, List.mem_singleton] at hl
    rcases hl with hl | rfl
    · exact hlabel hl
    · have hi : i ∈ p.instructions := List.fst_mem_of_mem_zipIdx hmem
      exact (parse?_instructionLine hi (hfeed i hi)).1
  · exact hlabel hl

theorem read_text (hargument : ∀ i ∈ p.instructions, i.argument.isSome = i.opcode.takesArgument)
    (hfeed : ∀ i ∈ p.instructions, '\n' ∉ i.context.toList) :
    ∃ d, Draft.read (text p).toList = .ok d ∧ Progress p p.instructions (p.length + 1) d := by
  obtain ⟨d₁, hread₁, h₁⟩ := Progress.start p
  obtain ⟨d₂, hread₂, h₂⟩ := h₁.instructions (List.nil_append _).symm hargument hfeed
    (1 + (dataLine p).length)
  obtain ⟨d, hread, h⟩ := h₂.labelLine (1 + (dataLine p ++ _).length)
  refine ⟨d, ?_, h⟩
  have htext : (text p).toList = ((lines p).map String.toList).flatMap (· ++ ['\n']) := by
    rw [text, String.toList_join, List.flatMap_map, List.flatMap_map]
    refine congrArg (List.flatMap · (lines p)) ?_
    funext l
    rw [String.toList_append]
    rfl
  have hlines : Text.lines (text p).toList = (lines p).map fun l => Text.chomp l.toList := by
    rw [htext, Text.lines_join, List.map_map]
    · rfl
    · intro l hl
      obtain ⟨line, hline, rfl⟩ := List.mem_map.1 hl
      exact not_mem_of_mem_lines hfeed hline
  rw [Draft.read, hlines]
  exact readLines_append (readLines_append hread₁ hread₂) hread

end Listing

end Microstack
