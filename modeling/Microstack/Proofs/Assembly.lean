/-
# `Microstack.Proofs.Assembly` — drafts, line by line, and what every assembled program has

A line is read into a draft in one of three ways, once it is known what the line
holds: a label is inserted, the data words are kept, or an instruction is put at the
end (`readLine_label`, `readLine_data`, `readLine_instruction`).  All that any line can
do is said by `readLine_eq_ok_iff`.

Whatever the lines were, an assembled program has three properties
(`Instruction.Assembled`), and a draft has them before its labels are resolved:

    argument      there exactly if the operation takes one
    term          always there
    its context   has no line feed in it
-/
import Microstack.Assembly
import Microstack.Proofs.Action
import Microstack.Proofs.Line
import Microstack.Proofs.Text

namespace Microstack.Assembly

/-! ## Lines of a draft -/

namespace Draft

def pend (d : Draft) (x : Pending) : Draft := { d with pending := d.pending.push x }

variable {d : Draft} {text : List Char}

theorem readLine_label {label : String} {symbols : SymbolTable}
    (h : Line.parse? text = some { label := some label, statement := none, comment := none })
    (hsymbols : d.symbols.insert? label d.pending.size = some symbols) (line : Nat) :
    d.readLine (text, line) = .ok { d with symbols } := by
  simp only [readLine, h, define, hsymbols]
  rfl

theorem readLine_data {words : List Word}
    (h : Line.parse? text = some { label := none, statement := some (.data words), comment := none })
    (hdata : d.data = none) (line : Nat) :
    d.readLine (text, line) = .ok { d with data := some words } := by
  simp only [readLine, h, define]
  show d.perform line none (some (.data words)) = _
  simp only [perform, hdata]

theorem append_of_isSome {mnemonic : String} {opcode : Opcode} {operand : Option Operand}
    (hopcode : operation? mnemonic = some opcode) (h : operand.isSome = opcode.takesArgument)
    (line : Nat) (comment : Option String) :
    d.append line comment mnemonic operand =
      .ok (d.pend (pendingOf line opcode operand (termOf line comment mnemonic operand))) := by
  simp only [append, hopcode]
  split
  · next htakes =>
    rw [htakes] at h
    cases h
  · next htakes =>
    rw [htakes] at h
    cases h
  · rfl

theorem readLine_instruction {mnemonic : String} {operand : Option Operand}
    {comment : Option String} {opcode : Opcode}
    (h : Line.parse? text =
      some { label := none, statement := some (.instruction mnemonic operand), comment })
    (hopcode : operation? mnemonic = some opcode)
    (hoperand : operand.isSome = opcode.takesArgument) (line : Nat) :
    d.readLine (text, line) =
      .ok (d.pend (pendingOf line opcode operand (termOf line comment mnemonic operand))) := by
  simp only [readLine, h, define]
  exact append_of_isSome hopcode hoperand line comment

/-! What a line can do to a draft. -/

/-- The labels of the draft with that of a line. -/
def defined? (d : Draft) : Option String → Option SymbolTable
  | none => some d.symbols
  | some label => d.symbols.insert? label d.pending.size

theorem define_eq_ok_iff {d' : Draft} {line : Nat} {label : Option String} :
    d.define line label = .ok d' ↔
      ∃ symbols, d.defined? label = some symbols ∧ d' = { d with symbols } := by
  cases label with
  | none =>
    constructor
    · intro h
      cases h
      exact ⟨_, rfl, rfl⟩
    · rintro ⟨_, hsymbols, rfl⟩
      cases hsymbols
      rfl
  | some label =>
    simp only [define, defined?]
    cases d.symbols.insert? label d.pending.size with
    | none => simp
    | some symbols => simp [eq_comm]

theorem append_eq_ok_iff {d' : Draft} {line : Nat} {comment : Option String} {mnemonic : String}
    {operand : Option Operand} :
    d.append line comment mnemonic operand = .ok d' ↔
      ∃ opcode, operation? mnemonic = some opcode ∧ operand.isSome = opcode.takesArgument ∧
        d' = d.pend (pendingOf line opcode operand (termOf line comment mnemonic operand)) := by
  constructor
  · intro h
    cases hopcode : operation? mnemonic with
    | none =>
      simp only [append, hopcode] at h
      cases h
    | some opcode =>
      have htakes : operand.isSome = opcode.takesArgument := by
        simp only [append, hopcode] at h
        split at h
        · cases h
        · cases h
        · next hmissing hextra =>
          cases htakes : opcode.takesArgument with
          | true => exact Option.isSome_iff_ne_none.2 fun hnone => hmissing hnone htakes
          | false =>
            refine Bool.eq_false_iff.2 fun hsome => ?_
            obtain ⟨o, ho⟩ := Option.isSome_iff_exists.1 hsome
            exact hextra o ho htakes
      rw [append_of_isSome hopcode htakes] at h
      exact ⟨opcode, rfl, htakes, (Except.ok.inj h).symm⟩
  · rintro ⟨opcode, hopcode, htakes, rfl⟩
    exact append_of_isSome hopcode htakes line comment

/-- All that a line can do to a draft: it adds its label, if it has one, and its statement,
and nothing else. -/
theorem readLine_eq_ok_iff {d' : Draft} {line : Nat} :
    d.readLine (text, line) = .ok d' ↔
      ∃ parsed, Line.parse? text = some parsed ∧ d.defined? parsed.label = some d'.symbols ∧
        match parsed.statement with
        | none => d'.data = d.data ∧ d'.pending = d.pending
        | some (.data words) => d.data = none ∧ d'.data = some words ∧ d'.pending = d.pending
        | some (.instruction mnemonic operand) =>
          ∃ opcode, operation? mnemonic = some opcode ∧ operand.isSome = opcode.takesArgument ∧
            d'.data = d.data ∧ d'.pending = d.pending.push
              (pendingOf line opcode operand (termOf line parsed.comment mnemonic operand)) := by
  obtain ⟨symbols', data', pending'⟩ := d'
  cases hparsed : Line.parse? text with
  | none => simp [readLine, hparsed]
  | some parsed =>
    simp only [readLine, hparsed, except_bind_eq_ok_iff, define_eq_ok_iff, Option.some.injEq,
      exists_eq_left']
    cases parsed.statement with
    | none =>
      simp only [perform, Except.ok.injEq]
      grind
    | some statement =>
      cases statement with
      | data words =>
        simp only [perform]
        cases hdata : d.data with
        | none => grind
        | some _ => grind
      | instruction mnemonic operand =>
        simp only [perform, append_eq_ok_iff, pend]
        grind

end Draft

end Microstack.Assembly

/-! ## Assembled programs -/

namespace Microstack

/-- The context of an instruction's term, empty if it has none. -/
def Instruction.context (i : Instruction) : String := (i.term.map Term.context).getD ""

/-- What every instruction of an assembled program has. -/
structure Instruction.Assembled (i : Instruction) : Prop where
  argument : i.argument.isSome = i.opcode.takesArgument
  term : i.term.isSome = true
  context : '\n' ∉ i.context.toList

namespace Assembly

/-- What an instruction has before its label is resolved. -/
structure Pending.Sound (x : Pending) : Prop where
  argument : (x.label.isSome || x.instruction.argument.isSome) = x.instruction.opcode.takesArgument
  term : x.instruction.term.isSome = true
  context : '\n' ∉ x.instruction.context.toList

theorem not_mem_context {text : List Char} (htext : '\n' ∉ text) {parsed : Line}
    (h : Line.parse? text = some parsed) (line : Nat) (mnemonic : String)
    (operand : Option Operand) :
    '\n' ∉ (termOf line parsed.comment mnemonic operand).context.toList := by
  intro hmem
  have hmem := Text.mem_of_mem_trim (String.toList_ofList ▸ hmem)
  cases hcomment : parsed.comment with
  | none =>
    rw [hcomment] at hmem
    cases hmem
  | some comment =>
    rw [hcomment] at hmem
    exact htext ((suffix_of_parse? h hcomment).subset hmem)

theorem sound_pendingOf {line : Nat} {opcode : Opcode} {operand : Option Operand} {term : Term}
    (htakes : operand.isSome = opcode.takesArgument) (hcontext : '\n' ∉ term.context.toList) :
    (pendingOf line opcode operand term).Sound := by
  cases operand with
  | none => exact ⟨htakes, rfl, hcontext⟩
  | some o =>
    cases o with
    | literal arg => exact ⟨htakes, rfl, hcontext⟩
    | label name => exact ⟨htakes, rfl, hcontext⟩

theorem sound_of_readLine {d d' : Draft} {source : List Char × Nat} (htext : '\n' ∉ source.1)
    (hd : ∀ x ∈ d.pending, x.Sound) (h : d.readLine source = .ok d') : ∀ x ∈ d'.pending, x.Sound := by
  obtain ⟨parsed, hparsed, -, hstatement⟩ := Draft.readLine_eq_ok_iff.1 h
  split at hstatement
  · rw [hstatement.2]
    exact hd
  · rw [hstatement.2.2]
    exact hd
  · next mnemonic operand _ =>
    obtain ⟨opcode, -, htakes, -, hpending⟩ := hstatement
    intro x hx
    rw [hpending, Array.mem_push] at hx
    rcases hx with hx | rfl
    · exact hd x hx
    · exact sound_pendingOf htakes (not_mem_context htext hparsed _ mnemonic operand)

theorem sound_of_read {text : List Char} {d : Draft} (h : Draft.read text = .ok d) :
    ∀ x ∈ d.pending, x.Sound := by
  refine foldlM_keeps (P := fun d => ∀ x ∈ d.pending, x.Sound) ?_ ?_ h
  · intro source hsource d d' hd hread
    have hline := List.mem_zipIdx hsource
    have hmem : source.1 ∈ Text.lines text := by
      rw [hline.2.2]
      exact List.getElem_mem _
    exact sound_of_readLine (Text.not_mem_of_mem_lines hmem) hd hread
  · intro x hx
    exact absurd hx (Array.not_mem_empty x)

theorem assembled_of_resolve {symbols : SymbolTable} {x : Pending} (hx : x.Sound) {i : Instruction}
    (h : Draft.resolve symbols x = .ok i) : i.Assembled := by
  obtain ⟨hargument, hterm, hcontext⟩ := hx
  unfold Draft.resolve at h
  split at h
  · next hlabel =>
    cases h
    rw [hlabel] at hargument
    exact ⟨hargument, hterm, hcontext⟩
  · next label hlabel =>
    split at h
    · cases h
      rw [hlabel] at hargument
      exact ⟨hargument, hterm, hcontext⟩
    · cases h

theorem assembled_of_assemble {text : List Char} {p : Program} (h : assemble text = .ok p) :
    ∀ i ∈ p.instructions, i.Assembled := by
  rw [assemble, except_bind_eq_ok_iff] at h
  obtain ⟨d, hd, hprogram⟩ := h
  rw [Draft.program, except_bind_eq_ok_iff] at hprogram
  obtain ⟨instructions, hresolve, hp⟩ := hprogram
  cases hp
  intro i hi
  obtain ⟨x, hx, hxi⟩ := exists_of_mem_mapM hresolve hi
  exact assembled_of_resolve (sound_of_read hd x (Array.mem_toList_iff.1 hx)) hxi

end Assembly

end Microstack
