/-
# `Microstack.Proofs.Diagnosis` — which error a text has

Once the lines before it are known, a line has one of six errors, or none (`Raises`).  A label
that is defined nowhere is the seventh, and no single line has it: the whole text decides.

    the error of a text           that of the first line that has one      `RaisedFirst`
    or, if no line has one        the first operand that is not defined    `FirstOpen`

Lines that follow the first error play no part.  So a text that ends with its line has the
errors of its lines, whatever text is put behind it.
-/
import Mathlib.Data.List.Induction
import Microstack.Proofs.Meaning

namespace Microstack.Assembly

/-! ## The errors of a line and of a text -/

/-- The label of the line, if it has one, is defined on none of the lines before. -/
def Line.Fresh (before : List Line) (l : Line) : Prop :=
  ∀ name, l.label = some name → name ∉ definedLabels before

/-- The error that a line has after other lines.  The label is looked at before the statement. -/
inductive Raises (before : List Line) (text : List Char) (n : Nat) : Error → Prop
  | unparsable : Line.parse? text = none →
      Raises before text n (.unparsable n (String.ofList (Text.trim text)))
  | duplicateLabel {l : Line} {name : String} : Line.parse? text = some l → l.label = some name →
      name ∈ definedLabels before → Raises before text n (.duplicateLabel n name)
  | duplicateData {l : Line} {words : List Word} : Line.parse? text = some l → l.Fresh before →
      l.statement = some (.data words) → dataSegments before ≠ [] →
      Raises before text n (.duplicateData n)
  | notAnOperation {l : Line} {mnemonic : String} {operand : Option Operand} :
      Line.parse? text = some l → l.Fresh before →
      l.statement = some (.instruction mnemonic operand) → (∀ op, ¬Names mnemonic op) →
      Raises before text n (.notAnOperation n mnemonic)
  | argumentMissing {l : Line} {mnemonic : String} {op : Opcode} :
      Line.parse? text = some l → l.Fresh before →
      l.statement = some (.instruction mnemonic none) → Names mnemonic op →
      op.takesArgument = true → Raises before text n (.argumentMissing n op)
  | unexpectedArgument {l : Line} {mnemonic : String} {operand : Operand} {op : Opcode} :
      Line.parse? text = some l → l.Fresh before →
      l.statement = some (.instruction mnemonic (some operand)) → Names mnemonic op →
      op.takesArgument = false → Raises before text n (.unexpectedArgument n op)

/-- One of the lines has the error. -/
def Raised (ls : List (List Char)) (e : Error) : Prop :=
  ∃ before line after, ls = before ++ line :: after ∧
    Raises (before.filterMap Line.parse?) line (before.length + 1) e

/-- The first of the lines that has an error has this one. -/
def RaisedFirst (ls : List (List Char)) (e : Error) : Prop :=
  ∃ before line after, ls = before ++ line :: after ∧ (∀ e', ¬Raised before e') ∧
    Raises (before.filterMap Line.parse?) line (before.length + 1) e

/-- The first instruction with a label for an operand that no line defines. -/
def FirstOpen (L : List Line) (n : Nat) (name : String) : Prop :=
  ∃ before e after, entries L = before ++ e :: after ∧ (∀ x ∈ before, x.Closed L) ∧
    e.line = n ∧ e.operand = some (.label name) ∧ name ∉ definedLabels L

variable {L : List Line} {d : Draft} {text : List Char} {n : Nat} {e : Error}

/-! ## Lines -/

theorem Reads.insert?_eq_none_iff (h : Reads L d) {name : String} {pc : Nat} :
    d.symbols.insert? name pc = none ↔ name ∈ definedLabels L := by
  rw [SymbolTable.insert?_eq_none_iff, h.symbols]
  split
  · next hmem => simp [hmem]
  · next hmem => simp [hmem]

theorem Reads.define_of_mem (h : Reads L d) {name : String} (hmem : name ∈ definedLabels L)
    (n : Nat) : d.define n (some name) = .error (.duplicateLabel n name) := by
  simp only [Draft.define, h.insert?_eq_none_iff.2 hmem]

theorem Reads.define_of_fresh (h : Reads L d) {l : Line} (hfresh : l.Fresh L) (n : Nat) :
    ∃ symbols, d.define n l.label = .ok { d with symbols } := by
  cases hlabel : l.label with
  | none => exact ⟨_, rfl⟩
  | some name =>
    cases hinsert : d.symbols.insert? name d.pending.size with
    | none => exact absurd (h.insert?_eq_none_iff.1 hinsert) (hfresh name hlabel)
    | some symbols => exact ⟨symbols, by simp only [Draft.define, hinsert]⟩

theorem readLine_of_define {l : Line} {d' : Draft} (hl : Line.parse? text = some l)
    (hdefine : d.define n l.label = .ok d') :
    d.readLine (text, n) = d'.perform n l.comment l.statement := by
  simp only [Draft.readLine, hl, hdefine]
  rfl

theorem Reads.data_eq_none_iff (h : Reads L d) : d.data = none ↔ dataSegments L = [] := by
  rw [h.segments, Option.toList_eq_nil_iff]

theorem Reads.readLine_of_raises (h : Reads L d) (hraises : Raises L text n e) :
    d.readLine (text, n) = .error e := by
  cases hraises with
  | unparsable hl => simp only [Draft.readLine, hl]
  | duplicateLabel hl hname hmem =>
    simp only [Draft.readLine, hl, hname, h.define_of_mem hmem]
    rfl
  | duplicateData hl hfresh hs hsegments =>
    obtain ⟨symbols, hdefine⟩ := h.define_of_fresh hfresh n
    obtain ⟨words, hdata⟩ := Option.ne_none_iff_exists'.1 (mt h.data_eq_none_iff.1 hsegments)
    rw [readLine_of_define hl hdefine, hs]
    simp only [Draft.perform, hdata]
  | @notAnOperation l mnemonic operand hl hfresh hs hnames =>
    obtain ⟨symbols, hdefine⟩ := h.define_of_fresh hfresh n
    have hop : operation? mnemonic = none :=
      Option.eq_none_iff_forall_ne_some.2 fun op hop => hnames op (names_iff.2 hop)
    rw [readLine_of_define hl hdefine, hs]
    simp only [Draft.perform, Draft.append, hop]
  | argumentMissing hl hfresh hs hnames htakes =>
    obtain ⟨symbols, hdefine⟩ := h.define_of_fresh hfresh n
    rw [readLine_of_define hl hdefine, hs]
    simp only [Draft.perform, Draft.append, names_iff.1 hnames, htakes]
  | unexpectedArgument hl hfresh hs hnames htakes =>
    obtain ⟨symbols, hdefine⟩ := h.define_of_fresh hfresh n
    rw [readLine_of_define hl hdefine, hs]
    simp only [Draft.perform, Draft.append, names_iff.1 hnames, htakes]

theorem Reads.raises_of_readLine (h : Reads L d) (hread : d.readLine (text, n) = .error e) :
    Raises L text n e := by
  cases hl : Line.parse? text with
  | none =>
    simp only [Draft.readLine, hl] at hread
    cases hread
    exact .unparsable hl
  | some l =>
    -- With a label that is new only the table has changed, and the statement decides.
    by_cases hfresh : l.Fresh L
    · obtain ⟨symbols, hdefine⟩ := h.define_of_fresh hfresh n
      rw [readLine_of_define hl hdefine] at hread
      cases hs : l.statement with
      | none =>
        rw [hs] at hread
        cases hread
      | some statement =>
        rw [hs] at hread
        cases statement with
        | data words =>
          cases hdata : d.data with
          | none =>
            simp only [Draft.perform, hdata] at hread
            cases hread
          | some segment =>
            simp only [Draft.perform, hdata] at hread
            cases hread
            refine .duplicateData hl hfresh hs fun hnil => ?_
            cases hdata.symm.trans (h.data_eq_none_iff.2 hnil)
        | instruction mnemonic operand =>
          cases hop : operation? mnemonic with
          | none =>
            simp only [Draft.perform, Draft.append, hop] at hread
            cases hread
            refine .notAnOperation hl hfresh hs fun op hnames => ?_
            cases hop.symm.trans (names_iff.1 hnames)
          | some op =>
            simp only [Draft.perform, Draft.append, hop] at hread
            split at hread
            · next htakes =>
              cases hread
              exact .argumentMissing hl hfresh hs (names_iff.2 hop) htakes
            · next htakes =>
              cases hread
              exact .unexpectedArgument hl hfresh hs (names_iff.2 hop) htakes
            · cases hread
    · obtain ⟨name, hname, hmem⟩ : ∃ name, l.label = some name ∧ name ∈ definedLabels L := by
        simpa [Line.Fresh] using hfresh
      simp only [Draft.readLine, hl, hname, h.define_of_mem hmem] at hread
      cases hread
      exact .duplicateLabel hl hname hmem

theorem Reads.readLine_eq_error_iff (h : Reads L d) :
    d.readLine (text, n) = .error e ↔ Raises L text n e :=
  ⟨h.raises_of_readLine, h.readLine_of_raises⟩

/-! ## Places in a list -/

section Places

variable {α : Type} {as bs : List α} {a : α} {P : List α → α → Prop}

theorem exists_place_concat :
    (∃ before b after, as ++ [a] = before ++ b :: after ∧ P before b) ↔
      (∃ before b after, as = before ++ b :: after ∧ P before b) ∨ P as a := by
  constructor
  · rintro ⟨before, b, after, heq, hP⟩
    rcases List.eq_nil_or_concat after with rfl | ⟨rest, c, rfl⟩
    · obtain ⟨rfl, hlast⟩ := List.append_inj' heq rfl
      cases hlast
      exact .inr hP
    · rw [List.concat_eq_append, ← List.cons_append, ← List.append_assoc] at heq
      exact .inl ⟨before, b, rest, (List.append_inj' heq rfl).1, hP⟩
  · rintro (⟨before, b, after, rfl, hP⟩ | hP)
    · exact ⟨before, b, after ++ [a], by rw [List.append_assoc, List.cons_append], hP⟩
    · exact ⟨as, a, [], rfl, hP⟩

/-- What is behind a list has no part in what is found in the list. -/
theorem exists_place_append (hP : ∀ before b, P before b → before.length < as.length) :
    (∃ before b after, as ++ bs = before ++ b :: after ∧ P before b) ↔
      ∃ before b after, as = before ++ b :: after ∧ P before b := by
  constructor
  · rintro ⟨before, b, after, heq, hPb⟩
    have hlt := hP before b hPb
    rcases List.append_eq_append_iff.1 heq with ⟨more, rfl, -⟩ | ⟨more, rfl, hrest⟩
    · -- The place would be behind the list.
      rw [List.length_append] at hlt
      omega
    · cases more with
      | nil =>
        rw [List.append_nil] at hlt
        exact absurd hlt (Nat.lt_irrefl _)
      | cons c more =>
        cases hrest
        exact ⟨before, b, more, rfl, hPb⟩
  · rintro ⟨before, b, after, rfl, hPb⟩
    exact ⟨before, b, after ++ bs, by rw [List.append_assoc, List.cons_append], hPb⟩

theorem exists_first_cons {P Q : α → Prop} :
    (∃ before b after, a :: as = before ++ b :: after ∧ (∀ x ∈ before, P x) ∧ Q b) ↔
      Q a ∨ P a ∧ ∃ before b after, as = before ++ b :: after ∧ (∀ x ∈ before, P x) ∧ Q b := by
  constructor
  · rintro ⟨before, b, after, heq, hP, hQ⟩
    cases before with
    | nil =>
      cases heq
      exact .inl hQ
    | cons x before =>
      cases heq
      rw [List.forall_mem_cons] at hP
      exact .inr ⟨hP.1, before, b, after, rfl, hP.2, hQ⟩
  · rintro (hQ | ⟨ha, before, b, after, rfl, hP, hQ⟩)
    · exact ⟨[], a, as, rfl, nofun, hQ⟩
    · exact ⟨a :: before, b, after, rfl, List.forall_mem_cons.2 ⟨ha, hP⟩, hQ⟩

/-- Parts that are done one by one stop at the first that fails. -/
theorem mapM_eq_error_iff {β γ ε : Type} {R : α → β → Prop} {bs : List β} {f : β → Except ε γ}
    {e : ε} {P Q : α → Prop} (hok : ∀ a b, R a b → ((∃ c, f b = .ok c) ↔ P a))
    (herror : ∀ a b, R a b → (f b = .error e ↔ Q a)) (hR : List.Forall₂ R as bs) :
    bs.mapM f = .error e ↔
      ∃ before a after, as = before ++ a :: after ∧ (∀ x ∈ before, P x) ∧ Q a := by
  induction hR with
  | nil => simp [pure, Except.pure]
  | @cons a b as bs hab _ ih =>
    rw [exists_first_cons, ← ih, ← hok a b hab, ← herror a b hab, List.mapM_cons,
      except_bind_eq_error_iff]
    refine or_congr_right ⟨?_, ?_⟩
    · rintro ⟨c, hc, hrest⟩
      rw [except_bind_eq_error_iff] at hrest
      rcases hrest with hrest | ⟨cs, -, hpure⟩
      · exact ⟨⟨c, hc⟩, hrest⟩
      · cases hpure
    · rintro ⟨⟨c, hc⟩, hrest⟩
      exact ⟨c, hc, by rw [hrest]; rfl⟩

end Places

/-! ## Texts -/

variable {ls more : List (List Char)} {line : List Char}

def readAll (ls : List (List Char)) : Except Error Draft :=
  (ls.zipIdx 1).foldlM Draft.readLine {}

theorem readAll_concat :
    readAll (ls ++ [line]) = readAll ls >>= fun d => d.readLine (line, ls.length + 1) := by
  rw [readAll, List.zipIdx_append, List.foldlM_append, Nat.add_comm 1]
  simp only [List.zipIdx_cons, List.zipIdx_nil, List.foldlM_cons, List.foldlM_nil, bind_pure]
  rfl

theorem filterMap_of_mapM {α β : Type} {f : α → Option β} {as : List α} {bs : List β}
    (h : as.mapM f = some bs) : as.filterMap f = bs := by
  induction as generalizing bs with
  | nil =>
    cases h
    rfl
  | cons a as ih =>
    obtain ⟨b, rest, hb, hrest, rfl⟩ := mapM_cons_eq_some_iff.1 h
    rw [List.filterMap_cons_some hb, ih hrest]

theorem reads_of_readAll (h : readAll ls = .ok d) : Reads (ls.filterMap Line.parse?) d := by
  obtain ⟨L, hL, hd⟩ := Reads.nil.readLines h
  rw [filterMap_of_mapM hL]
  exact hd

theorem raised_concat : Raised (ls ++ [line]) e ↔
    Raised ls e ∨ Raises (ls.filterMap Line.parse?) line (ls.length + 1) e :=
  exists_place_concat

theorem raisedFirst_concat : RaisedFirst (ls ++ [line]) e ↔
    RaisedFirst ls e ∨
      (∀ e', ¬Raised ls e') ∧ Raises (ls.filterMap Line.parse?) line (ls.length + 1) e :=
  exists_place_concat

theorem readAll_completes_iff : (∃ d, readAll ls = .ok d) ↔ ∀ e, ¬Raised ls e := by
  induction ls using List.reverseRecOn with
  | nil => exact ⟨fun _ e => by simp [Raised], fun _ => ⟨_, rfl⟩⟩
  | append_singleton ls line ih =>
    -- The last line is read into the draft of those before it, which is what they say.
    simp only [readAll_concat, raised_concat, not_or, forall_and, ← ih, except_bind_eq_ok_iff]
    constructor
    · rintro ⟨d', d, hd, hline⟩
      refine ⟨⟨d, hd⟩, fun e hraises => ?_⟩
      cases hline.symm.trans ((reads_of_readAll hd).readLine_eq_error_iff.2 hraises)
    · rintro ⟨⟨d, hd⟩, hquiet⟩
      cases hline : d.readLine (line, ls.length + 1) with
      | ok d' => exact ⟨d', d, hd, hline⟩
      | error e => exact absurd ((reads_of_readAll hd).readLine_eq_error_iff.1 hline) (hquiet e)

theorem readAll_eq_error_iff : readAll ls = .error e ↔ RaisedFirst ls e := by
  induction ls using List.reverseRecOn with
  | nil => exact ⟨nofun, fun h => by simp [RaisedFirst] at h⟩
  | append_singleton ls line ih =>
    rw [readAll_concat, raisedFirst_concat, ← ih, ← readAll_completes_iff,
      except_bind_eq_error_iff]
    refine or_congr_right ⟨?_, ?_⟩
    · rintro ⟨d, hd, hline⟩
      exact ⟨⟨d, hd⟩, (reads_of_readAll hd).readLine_eq_error_iff.1 hline⟩
    · rintro ⟨⟨d, hd⟩, hraises⟩
      exact ⟨d, hd, (reads_of_readAll hd).readLine_eq_error_iff.2 hraises⟩

theorem Raises.line_eq {before : List Line} (h : Raises before text n e) : e.line = n := by
  cases h with
  | unparsable => rfl
  | duplicateLabel => rfl
  | duplicateData => rfl
  | notAnOperation => rfl
  | argumentMissing => rfl
  | unexpectedArgument => rfl

theorem Raises.ne_undefinedLabel {before : List Line} (h : Raises before text n e) (k : Nat)
    (name : String) : e ≠ .undefinedLabel k name := by
  rintro rfl
  cases h

/-- Lines that follow play no part in the error of a line before them. -/
theorem raisedFirst_append (h : e.line ≤ ls.length) :
    RaisedFirst (ls ++ more) e ↔ RaisedFirst ls e := by
  refine exists_place_append fun before line hfirst => ?_
  have hline := hfirst.2.line_eq
  omega

/-! ## Labels that are defined nowhere -/

variable {x : Pending} {entry : Entry}

theorem Reads.resolve_completes_iff (h : Reads L d) (hx : entry.Drafted x) :
    (∃ i, Draft.resolve d.symbols x = .ok i) ↔ entry.Closed L :=
  ⟨fun ⟨_, hi⟩ => (h.resolve hx hi).1, h.exists_resolve hx⟩

theorem Reads.resolve_eq_error_iff (h : Reads L d) (hx : entry.Drafted x) :
    Draft.resolve d.symbols x = .error e ↔
      ∃ name, entry.operand = some (.label name) ∧ name ∉ definedLabels L ∧
        e = .undefinedLabel entry.line name := by
  obtain ⟨op, -, -, rfl⟩ := hx
  obtain ⟨line, mnemonic, operand, comment⟩ := entry
  cases operand with
  | none => simp [Draft.resolve, pendingOf]
  | some o =>
    cases o with
    | literal arg => simp [Draft.resolve, pendingOf]
    | label name =>
      by_cases hmem : name ∈ definedLabels L
      · simp [Draft.resolve, pendingOf, h.symbols, hmem]
      · simp [Draft.resolve, pendingOf, h.symbols, hmem, eq_comm]

theorem Reads.program_eq_error_iff (h : Reads L d) :
    d.program = .error e ↔ ∃ n name, e = .undefinedLabel n name ∧ FirstOpen L n name := by
  have hmapM := mapM_eq_error_iff (fun _ _ hx => h.resolve_completes_iff hx)
    (fun _ _ hx => h.resolve_eq_error_iff (e := e) hx) h.pending
  rw [Draft.program, except_bind_eq_error_iff, hmapM]
  constructor
  · rintro (⟨before, entry, after, heq, hclosed, name, hoperand, hname, rfl⟩ | ⟨is, -, hpure⟩)
    · exact ⟨_, name, rfl, before, entry, after, heq, hclosed, rfl, hoperand, hname⟩
    · cases hpure
  · rintro ⟨n, name, rfl, before, entry, after, heq, hclosed, rfl, hoperand, hname⟩
    exact .inl ⟨before, entry, after, heq, hclosed, name, hoperand, hname, rfl⟩

/-! ## Assembling -/

theorem assemble_eq_error_iff :
    assemble text = .error e ↔ RaisedFirst (Text.lines text) e ∨
      (∀ e', ¬Raised (Text.lines text) e') ∧
        ∃ n name, e = .undefinedLabel n name ∧
          FirstOpen ((Text.lines text).filterMap Line.parse?) n name := by
  have hread : Draft.read text = readAll (Text.lines text) := rfl
  rw [assemble, except_bind_eq_error_iff, hread, readAll_eq_error_iff, ← readAll_completes_iff]
  refine or_congr_right ⟨?_, ?_⟩
  · rintro ⟨d, hd, hprogram⟩
    exact ⟨⟨d, hd⟩, (reads_of_readAll hd).program_eq_error_iff.1 hprogram⟩
  · rintro ⟨⟨d, hd⟩, hopen⟩
    exact ⟨d, hd, (reads_of_readAll hd).program_eq_error_iff.2 hopen⟩

theorem assemble_eq_error_iff_raisedFirst (he : ∀ n name, e ≠ .undefinedLabel n name) :
    assemble text = .error e ↔ RaisedFirst (Text.lines text) e := by
  rw [assemble_eq_error_iff, or_iff_left]
  rintro ⟨-, n, name, rfl, -⟩
  exact he n name rfl

theorem assemble_eq_undefinedLabel_iff {name : String} :
    assemble text = .error (.undefinedLabel n name) ↔
      (∀ e, ¬Raised (Text.lines text) e) ∧
        FirstOpen ((Text.lines text).filterMap Line.parse?) n name := by
  rw [assemble_eq_error_iff, or_iff_right]
  · refine and_congr_right fun _ => ⟨?_, fun hopen => ⟨n, name, rfl, hopen⟩⟩
    rintro ⟨k, found, heq, hopen⟩
    cases heq
    exact hopen
  · rintro ⟨before, line, after, -, -, hraises⟩
    exact hraises.ne_undefinedLabel n name rfl

/-- The error of a text is that of the first line that has one, which no text behind it changes,
or else the first operand that is not defined. -/
theorem assemble_reports_first (text : List Char) :
    (∀ e, (∀ n name, e ≠ .undefinedLabel n name) →
      (assemble text = .error e ↔ RaisedFirst (Text.lines text) e)) ∧
    (text = [] ∨ (∃ t, text = t ++ ['\n']) →
      ∀ more e, (∀ n name, e ≠ .undefinedLabel n name) → e.line ≤ (Text.lines text).length →
        (assemble (text ++ more) = .error e ↔ assemble text = .error e)) ∧
    ∀ n name, assemble text = .error (.undefinedLabel n name) ↔
      (∀ e, ¬Raised (Text.lines text) e) ∧
        FirstOpen ((Text.lines text).filterMap Line.parse?) n name := by
  refine ⟨fun e he => assemble_eq_error_iff_raisedFirst he, ?_,
    fun n name => assemble_eq_undefinedLabel_iff⟩
  intro hends more e he hline
  rw [assemble_eq_error_iff_raisedFirst he, assemble_eq_error_iff_raisedFirst he,
    Text.lines_append hends, raisedFirst_append hline]

/-- A label that is not defined yet, and an operation that takes no argument. -/
def faultyText : List Char := "  jnt end\r\nDROP 3 # one too many\n".toList

/-- What is put behind the two lines defines the label, and is as wrong as it may be. -/
theorem assemble_reports_first_faulty :
    RaisedFirst (Text.lines faultyText) (.unexpectedArgument 2 .drop) ∧
      assemble (faultyText ++ "end: end:\n.data\n.data".toList) =
        .error (.unexpectedArgument 2 .drop) := by
  obtain ⟨hfirst, happend, -⟩ := assemble_reports_first faultyText
  have hnamed : ∀ n name, Error.unexpectedArgument 2 .drop ≠ .undefinedLabel n name :=
    fun n name h => by cases h
  have hfaulty : assemble faultyText = .error (.unexpectedArgument 2 .drop) := by decide +kernel
  have hends : ∃ t, faultyText = t ++ ['\n'] :=
    ⟨"  jnt end\r\nDROP 3 # one too many".toList, by decide +kernel⟩
  have hlines : (Text.lines faultyText).length = 2 := by decide +kernel
  refine ⟨(hfirst _ hnamed).1 hfaulty, (happend (.inr hends) _ _ hnamed ?_).2 hfaulty⟩
  rw [hlines]
  exact Nat.le_refl 2

end Microstack.Assembly
