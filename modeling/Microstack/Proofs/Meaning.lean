/-
# `Microstack.Proofs.Meaning` — what a text means as a program

The assembler goes through a text once, with a draft, and resolves the labels at the end.
What it comes to can be said of the whole text at once, without a draft and without a table:

    entries L        the instructions of the lines, numbered, in order
    address L name   how many of them stand before the line that defines the label
    WellFormed L     what the lines must satisfy
    Means L p        the data words of the program, and an instruction for every entry

`Reads L d` ties the two together.  It holds of the draft `d` that comes from the lines `L`;
every further line keeps it, and is accepted exactly if the lines are still well formed,
operands apart.
-/
import Mathlib.Data.List.Forall2
import Microstack.Proofs.Assembly
import Microstack.Proofs.SymbolTable

namespace Microstack.Assembly

/-! ## The parts of a text -/

/-- The lines of a text in their parts, if all of them follow the grammar. -/
def parsed? (text : List Char) : Option (List Line) := (Text.lines text).mapM Line.parse?

/-- The words of a data line. -/
def Line.data? (l : Line) : Option (List Word) :=
  match l.statement with
  | some (.data words) => some words
  | _ => none

def definedLabels (L : List Line) : List String := L.filterMap Line.label

def dataSegments (L : List Line) : List (List Word) := L.filterMap Line.data?

/-- An instruction as it stands in a text. -/
structure Entry where
  line : Nat
  mnemonic : String
  operand : Option Operand
  comment : Option String

/-- The instruction of a line. -/
def entryOf? (numbered : Line × Nat) : Option Entry :=
  match numbered.1.statement with
  | some (.instruction mnemonic operand) =>
    some { line := numbered.2, mnemonic, operand, comment := numbered.1.comment }
  | _ => none

def entries (L : List Line) : List Entry := (L.zipIdx 1).filterMap entryOf?

/-- The number of instructions before the line that defines a label. -/
def address (L : List Line) (name : String) : Nat :=
  (entries (L.takeWhile fun l => l.label ≠ some name)).length

/-- The mnemonic names the operation, in upper or lower case, or is a short form of it. -/
def Names (mnemonic : String) (op : Opcode) : Prop :=
  op.mnemonic = String.ofList (mnemonic.toList.map Char.toUpper) ∨
    (String.ofList (mnemonic.toList.map Char.toUpper), op) ∈ Opcode.shortForms

/-- What can be asked of lines while they are read. -/
structure Readable (L : List Line) : Prop where
  /-- No label is defined twice. -/
  labels : (definedLabels L).Nodup
  /-- The data words are given once at most. -/
  segments : (dataSegments L).length ≤ 1
  /-- Every mnemonic names an operation, and there is an operand if it takes an argument. -/
  operations : ∀ e ∈ entries L, ∃ op, Names e.mnemonic op ∧ e.operand.isSome = op.takesArgument

/-- What lines must satisfy, besides their grammar, to make a program. -/
structure WellFormed (L : List Line) : Prop extends Readable L where
  /-- The labels that stand as operands are defined, on any line. -/
  operands : ∀ e ∈ entries L, ∀ name, e.operand = some (.label name) → name ∈ definedLabels L

/-- The instruction with its operand, as written. -/
def Entry.text (e : Entry) : String :=
  match e.operand with
  | some o => e.mnemonic ++ " " ++ o.text
  | none => e.mnemonic

/-- The argument that an operand stands for: a literal is itself, and a label the number that
is its address. -/
inductive StandsFor (L : List Line) : Option Operand → Option Argument → Prop
  | none : StandsFor L none none
  | literal (arg : Argument) : StandsFor L (some (.literal arg)) (some arg)
  | label {name : String} {w : Word} :
      w.toInt = address L name → StandsFor L (some (.label name)) (some (.number w))

/-- What becomes of an entry. -/
structure Entry.Becomes (L : List Line) (e : Entry) (i : Instruction) : Prop where
  opcode : Names e.mnemonic i.opcode
  argument : StandsFor L e.operand i.argument
  term : i.term = some {
    line := UInt32.ofNat e.line
    context := String.ofList (Text.trim (e.comment.getD "").toList)
    text := e.text }

/-- What lines mean as a program. -/
structure Means (L : List Line) (p : Program) : Prop where
  data : p.data = (dataSegments L).head?
  instructions : List.Forall₂ (Entry.Becomes L) (entries L) p.instructions

/-! ## Lines, one more at a time -/

variable {L M : List Line} {l : Line} {name : String}

theorem definedLabels_concat : definedLabels (L ++ [l]) = definedLabels L ++ l.label.toList :=
  filterMap_concat _ L l

theorem dataSegments_concat : dataSegments (L ++ [l]) = dataSegments L ++ l.data?.toList :=
  filterMap_concat _ L l

theorem entries_append :
    entries (L ++ M) = entries L ++ (M.zipIdx (L.length + 1)).filterMap entryOf? := by
  rw [entries, List.zipIdx_append, List.filterMap_append, Nat.add_comm 1]
  rfl

theorem entries_concat :
    entries (L ++ [l]) = entries L ++ (entryOf? (l, L.length + 1)).toList := by
  rw [entries, List.zipIdx_append, Nat.add_comm 1]
  exact filterMap_concat _ (L.zipIdx 1) _

theorem address_append (h : name ∈ definedLabels L) : address (L ++ M) name = address L name := by
  obtain ⟨l, hl, hname⟩ := List.mem_filterMap.1 h
  have hstop : (L.takeWhile fun l => l.label ≠ some name).length ≠ L.length := by
    intro hlen
    have hall := List.all_takeWhile (p := fun l : Line => decide (l.label ≠ some name)) (l := L)
    rw [(List.takeWhile_prefix _).eq_of_length hlen, List.all_eq_true] at hall
    exact of_decide_eq_true (hall l hl) hname
  rw [address, List.takeWhile_append, if_neg hstop, address]

theorem address_concat (hnew : name ∉ definedLabels L) (h : l.label = some name) :
    address (L ++ [l]) name = (entries L).length := by
  have hall : ∀ k ∈ L, decide (k.label ≠ some name) = true := by
    intro k hk
    exact decide_eq_true fun hname => hnew (List.mem_filterMap.2 ⟨k, hk, hname⟩)
  rw [address, List.takeWhile_append_of_pos hall, List.takeWhile_cons_of_neg (by simp [h]),
    List.append_nil]

theorem address_le (L : List Line) (name : String) : address L name ≤ (entries L).length := by
  have hparts := List.takeWhile_append_dropWhile (p := fun l => l.label ≠ some name) (l := L)
  rw [address]
  generalize L.takeWhile (fun l => l.label ≠ some name) = before at hparts ⊢
  rw [← hparts, entries_append, List.length_append]
  exact Nat.le_add_right _ _

theorem Readable.of_append (h : Readable (L ++ M)) : Readable L := by
  refine ⟨?_, ?_, fun e he => h.operations e ?_⟩
  · have hlabels := h.labels
    rw [definedLabels, List.filterMap_append] at hlabels
    exact (List.nodup_append.1 hlabels).1
  · have hsegments := h.segments
    rw [dataSegments, List.filterMap_append, List.length_append] at hsegments
    exact Nat.le_of_add_right_le hsegments
  · rw [entries_append]
    exact List.mem_append_left _ he

theorem names_iff {mnemonic : String} {op : Opcode} :
    Names mnemonic op ↔ operation? mnemonic = some op := by
  unfold Names operation?
  generalize String.ofList (mnemonic.toList.map Char.toUpper) = name
  constructor
  · rintro (rfl | hshort)
    · exact Opcode.ofMnemonic?_mnemonic op
    · simp only [Opcode.shortForms, List.mem_cons, Prod.mk.injEq, List.not_mem_nil,
        or_false] at hshort
      rcases hshort with ⟨rfl, rfl⟩ | ⟨rfl, rfl⟩ | ⟨rfl, rfl⟩
      all_goals decide
  · intro h
    unfold Opcode.ofMnemonic? at h
    split at h
    · next found hfound =>
      cases h
      have hname := List.find?_some hfound
      exact .inl (of_decide_eq_true hname)
    · obtain ⟨before, after, hforms, -⟩ := List.lookup_eq_some_iff.1 h
      rw [hforms]
      exact .inr (List.mem_append_right _ List.mem_cons_self)

/-! ## Drafts -/

/-- What is kept of an entry until the labels are known. -/
def Entry.Drafted (e : Entry) (x : Pending) : Prop :=
  ∃ op, Names e.mnemonic op ∧ e.operand.isSome = op.takesArgument ∧
    x = pendingOf e.line op e.operand (termOf e.line e.comment e.mnemonic e.operand)

/-- The draft is what was read of the lines. -/
structure Reads (L : List Line) (d : Draft) : Prop where
  labels : (definedLabels L).Nodup
  segments : dataSegments L = d.data.toList
  symbols : ∀ name, d.symbols.address? name =
    if name ∈ definedLabels L then some (address L name) else none
  pending : List.Forall₂ Entry.Drafted (entries L) d.pending.toList

theorem Reads.nil : Reads [] {} where
  labels := List.nodup_nil
  segments := rfl
  symbols _ := rfl
  pending := .nil

variable {d d' : Draft} {text : List Char}

theorem Reads.size (h : Reads L d) : d.pending.size = (entries L).length := by
  rw [h.pending.length_eq, Array.length_toList]

theorem Reads.defined (h : Reads L d) {symbols : SymbolTable}
    (hsymbols : d.defined? l.label = some symbols) :
    (definedLabels (L ++ [l])).Nodup ∧ ∀ name, symbols.address? name =
      if name ∈ definedLabels (L ++ [l]) then some (address (L ++ [l]) name) else none := by
  have hkept : ∀ name, (if name ∈ definedLabels L then some (address L name) else none) =
      if name ∈ definedLabels L then some (address (L ++ [l]) name) else none := by
    intro name
    split
    · next hmem => rw [address_append hmem]
    · rfl
  rw [definedLabels_concat]
  cases hlabel : l.label with
  | none =>
    rw [hlabel] at hsymbols
    cases hsymbols
    rw [Option.toList_none, List.append_nil]
    exact ⟨h.labels, fun name => (h.symbols name).trans (hkept name)⟩
  | some new =>
    rw [hlabel] at hsymbols
    have hnew : new ∉ definedLabels L := by
      intro hmem
      have hnone := SymbolTable.address?_of_insert? hsymbols
      rw [h.symbols, if_pos hmem] at hnone
      cases hnone
    refine ⟨List.nodup_append.2 ⟨h.labels, List.pairwise_singleton _ new, ?_⟩, fun name => ?_⟩
    · rintro a ha b hb rfl
      exact hnew (List.mem_singleton.1 hb ▸ ha)
    · rw [SymbolTable.address?_insert? hsymbols, h.symbols, hkept, h.size,
        ← address_concat hnew hlabel]
      by_cases hname : name = new
      · subst hname
        simp
      · simp [hname]

/-- A line that is read is one of the lines that the draft is made of then. -/
theorem Reads.readLine (h : Reads L d) (hread : d.readLine (text, L.length + 1) = .ok d') :
    ∃ l, Line.parse? text = some l ∧ Reads (L ++ [l]) d' := by
  obtain ⟨l, hl, hsymbols, hstatement⟩ := Draft.readLine_eq_ok_iff.1 hread
  obtain ⟨hlabels, haddress⟩ := h.defined hsymbols
  refine ⟨l, hl, ?_⟩
  cases hs : l.statement with
  | none =>
    have hdata : l.data? = none := by rw [Line.data?, hs]
    have hentry : entryOf? (l, L.length + 1) = none := by simp only [entryOf?, hs]
    simp only [hs] at hstatement
    refine ⟨hlabels, ?_, haddress, ?_⟩
    · rw [dataSegments_concat, hdata, hstatement.1, h.segments]
      exact List.append_nil _
    · rw [entries_concat, hentry, hstatement.2]
      exact (List.append_nil _).symm ▸ h.pending
  | some statement =>
    cases statement with
    | data words =>
      have hdata : l.data? = some words := by rw [Line.data?, hs]
      have hentry : entryOf? (l, L.length + 1) = none := by simp only [entryOf?, hs]
      simp only [hs] at hstatement
      obtain ⟨hnone, hsome, hpending⟩ := hstatement
      refine ⟨hlabels, ?_, haddress, ?_⟩
      · rw [dataSegments_concat, hdata, h.segments, hnone, hsome]
        rfl
      · rw [entries_concat, hentry, hpending]
        exact (List.append_nil _).symm ▸ h.pending
    | instruction mnemonic operand =>
      have hdata : l.data? = none := by rw [Line.data?, hs]
      have hentry : entryOf? (l, L.length + 1) =
          some ⟨L.length + 1, mnemonic, operand, l.comment⟩ := by simp only [entryOf?, hs]
      simp only [hs] at hstatement
      obtain ⟨op, hop, htakes, hsame, hpending⟩ := hstatement
      refine ⟨hlabels, ?_, haddress, ?_⟩
      · rw [dataSegments_concat, hdata, hsame, h.segments]
        exact List.append_nil _
      · rw [entries_concat, hentry, hpending, Array.toList_push]
        exact List.rel_append h.pending (.cons ⟨op, names_iff.2 hop, htakes, rfl⟩ .nil)

theorem Reads.exists_readLine (h : Reads L d) (hl : Line.parse? text = some l)
    (hreadable : Readable (L ++ [l])) : ∃ d', d.readLine (text, L.length + 1) = .ok d' := by
  obtain ⟨symbols, hsymbols⟩ : ∃ symbols, d.defined? l.label = some symbols := by
    cases hlabel : l.label with
    | none => exact ⟨_, rfl⟩
    | some new =>
      refine Option.ne_none_iff_exists'.1 fun hnone => ?_
      have hlabels := hreadable.labels
      rw [definedLabels_concat, hlabel, List.nodup_append] at hlabels
      refine SymbolTable.insert?_eq_none_iff.1 hnone ?_
      rw [h.symbols, if_neg fun hmem => hlabels.2.2 new hmem new List.mem_cons_self rfl]
  cases hs : l.statement with
  | none =>
    exact ⟨⟨symbols, d.data, d.pending⟩,
      Draft.readLine_eq_ok_iff.2 ⟨l, hl, hsymbols, by simp only [hs, and_self]⟩⟩
  | some statement =>
    cases statement with
    | data words =>
      have hdata : l.data? = some words := by rw [Line.data?, hs]
      have hnone : d.data = none := by
        have hsegments := hreadable.segments
        rw [dataSegments_concat, hdata, h.segments, List.length_append] at hsegments
        cases hd : d.data with
        | none => rfl
        | some _ =>
          rw [hd] at hsegments
          exact absurd hsegments (by simp)
      exact ⟨⟨symbols, some words, d.pending⟩,
        Draft.readLine_eq_ok_iff.2 ⟨l, hl, hsymbols, by simp only [hs, hnone, and_self]⟩⟩
    | instruction mnemonic operand =>
      have hentry : entryOf? (l, L.length + 1) =
          some ⟨L.length + 1, mnemonic, operand, l.comment⟩ := by simp only [entryOf?, hs]
      obtain ⟨op, hop, htakes⟩ := hreadable.operations
        ⟨L.length + 1, mnemonic, operand, l.comment⟩ (by simp [entries_concat, hentry])
      refine ⟨⟨symbols, d.data, d.pending.push (pendingOf (L.length + 1) op operand
        (termOf (L.length + 1) l.comment mnemonic operand))⟩,
        Draft.readLine_eq_ok_iff.2 ⟨l, hl, hsymbols, ?_⟩⟩
      rw [hs]
      exact ⟨op, names_iff.1 hop, htakes, rfl, rfl⟩

/-! ## Whole texts -/

theorem mapM_cons_eq_some_iff {α β : Type} {f : α → Option β} {a : α} {as : List α}
    {bs : List β} :
    (a :: as).mapM f = some bs ↔ ∃ b rest, f a = some b ∧ as.mapM f = some rest ∧ bs = b :: rest := by
  rw [List.mapM_cons]
  cases f a with
  | none => simp
  | some b =>
    cases as.mapM f with
    | none => simp
    | some rest => simp [eq_comm]

theorem Reads.readLines {rest : List (List Char)} (h : Reads L d)
    (hread : (rest.zipIdx (L.length + 1)).foldlM Draft.readLine d = .ok d') :
    ∃ M, rest.mapM Line.parse? = some M ∧ Reads (L ++ M) d' := by
  induction rest generalizing L d with
  | nil =>
    cases hread
    exact ⟨[], rfl, L.append_nil.symm ▸ h⟩
  | cons text rest ih =>
    rw [List.zipIdx_cons, List.foldlM_cons, except_bind_eq_ok_iff] at hread
    obtain ⟨mid, hline, hrest⟩ := hread
    obtain ⟨l, hl, hmid⟩ := h.readLine hline
    obtain ⟨M, hM, hd'⟩ := ih hmid (by rwa [List.length_append])
    refine ⟨l :: M, mapM_cons_eq_some_iff.2 ⟨l, M, hl, hM, rfl⟩, ?_⟩
    rwa [List.append_assoc] at hd'

theorem Reads.exists_readLines {rest : List (List Char)} (h : Reads L d)
    (hM : rest.mapM Line.parse? = some M) (hreadable : Readable (L ++ M)) :
    ∃ d', (rest.zipIdx (L.length + 1)).foldlM Draft.readLine d = .ok d' := by
  induction rest generalizing L M d with
  | nil => exact ⟨d, rfl⟩
  | cons text rest ih =>
    obtain ⟨l, M, hl, hrest, rfl⟩ := mapM_cons_eq_some_iff.1 hM
    have happend : L ++ l :: M = (L ++ [l]) ++ M := List.append_cons L l M
    rw [happend] at hreadable
    obtain ⟨mid, hline⟩ := h.exists_readLine hl hreadable.of_append
    obtain ⟨k, hk, hmid⟩ := h.readLine hline
    cases hl.symm.trans hk
    obtain ⟨d', hd'⟩ := ih hmid hrest hreadable
    rw [List.length_append] at hd'
    refine ⟨d', ?_⟩
    rw [List.zipIdx_cons, List.foldlM_cons, hline]
    exact hd'

theorem reads_of_read (h : Draft.read text = .ok d) : ∃ L, parsed? text = some L ∧ Reads L d :=
  Reads.nil.readLines h

theorem exists_read (hL : parsed? text = some L) (h : Readable L) :
    ∃ d, Draft.read text = .ok d :=
  Reads.nil.exists_readLines hL h

theorem exists_of_mem_left {α β : Type} {R : α → β → Prop} {as : List α} {bs : List β}
    (h : List.Forall₂ R as bs) {a : α} (ha : a ∈ as) : ∃ b ∈ bs, R a b := by
  induction h with
  | nil => cases ha
  | cons hab _ ih =>
    rcases List.mem_cons.1 ha with rfl | ha
    · exact ⟨_, List.mem_cons_self, hab⟩
    · obtain ⟨b, hb, hR⟩ := ih ha
      exact ⟨b, List.mem_cons_of_mem _ hb, hR⟩

theorem Reads.readable (h : Reads L d) : Readable L := by
  refine ⟨h.labels, ?_, ?_⟩
  · rw [h.segments]
    cases d.data with
    | none => exact Nat.zero_le 1
    | some words => exact Nat.le_refl 1
  · intro e he
    obtain ⟨x, -, op, hop, htakes, -⟩ := exists_of_mem_left h.pending he
    exact ⟨op, hop, htakes⟩

/-! ## Resolving labels -/

/-- What an operand is resolved to.  An address is cut to the bits of a word. -/
def resolved (L : List Line) : Option Operand → Option Argument
  | none => none
  | some (.literal arg) => some arg
  | some (.label name) => some (.number (Word.wrap (address L name)))

/-- The instruction that an entry is resolved to. -/
structure Entry.Resolves (L : List Line) (e : Entry) (i : Instruction) : Prop where
  opcode : Names e.mnemonic i.opcode
  argument : i.argument = resolved L e.operand
  term : i.term = some (termOf e.line e.comment e.mnemonic e.operand)

/-- The label of the entry, if it has one for an operand, is defined. -/
def Entry.Closed (L : List Line) (e : Entry) : Prop :=
  ∀ name, e.operand = some (.label name) → name ∈ definedLabels L

variable {e : Entry} {x : Pending}

theorem Reads.resolve (h : Reads L d) (hx : e.Drafted x) {i : Instruction}
    (hi : Draft.resolve d.symbols x = .ok i) : e.Closed L ∧ e.Resolves L i := by
  obtain ⟨op, hop, -, rfl⟩ := hx
  obtain ⟨line, mnemonic, operand, comment⟩ := e
  cases operand with
  | none =>
    cases hi
    exact ⟨nofun, hop, rfl, rfl⟩
  | some o =>
    cases o with
    | literal arg =>
      cases hi
      exact ⟨nofun, hop, rfl, rfl⟩
    | label name =>
      simp only [Draft.resolve, pendingOf, h.symbols] at hi
      split at hi
      · next pc hpc =>
        cases hi
        split at hpc
        · next hmem =>
          cases hpc
          refine ⟨?_, hop, rfl, rfl⟩
          rintro _ ⟨⟩
          exact hmem
        · cases hpc
      · cases hi

theorem Reads.exists_resolve (h : Reads L d) (hx : e.Drafted x) (hclosed : e.Closed L) :
    ∃ i, Draft.resolve d.symbols x = .ok i := by
  obtain ⟨op, -, -, rfl⟩ := hx
  obtain ⟨line, mnemonic, operand, comment⟩ := e
  cases operand with
  | none => exact ⟨_, rfl⟩
  | some o =>
    cases o with
    | literal arg => exact ⟨_, rfl⟩
    | label name =>
      have hmem := hclosed name rfl
      simp only [Draft.resolve, pendingOf, h.symbols, if_pos hmem]
      exact ⟨_, rfl⟩

/-! Lists of entries, drafted and then resolved. -/

theorem forall₂_of_mapM {α β γ ε : Type} {R : α → β → Prop} {S : α → γ → Prop}
    {f : β → Except ε γ} (hf : ∀ a b c, R a b → f b = .ok c → S a c) {as : List α}
    {bs : List β} {cs : List γ} (hR : List.Forall₂ R as bs) (h : bs.mapM f = .ok cs) :
    List.Forall₂ S as cs := by
  induction hR generalizing cs with
  | nil =>
    cases h
    exact .nil
  | cons hab _ ih =>
    simp only [List.mapM_cons, except_bind_eq_ok_iff] at h
    obtain ⟨c, hc, rest, hrest, heq⟩ := h
    cases heq
    exact .cons (hf _ _ c hab hc) (ih hrest)

theorem exists_mapM {α β γ ε : Type} {R : α → β → Prop} {P : α → Prop} {f : β → Except ε γ}
    (hf : ∀ a b, R a b → P a → ∃ c, f b = .ok c) {as : List α} {bs : List β}
    (hR : List.Forall₂ R as bs) (hP : ∀ a ∈ as, P a) : ∃ cs, bs.mapM f = .ok cs := by
  induction hR with
  | nil => exact ⟨[], rfl⟩
  | cons hab _ ih =>
    obtain ⟨c, hc⟩ := hf _ _ hab (hP _ List.mem_cons_self)
    obtain ⟨cs, hcs⟩ := ih fun a ha => hP a (List.mem_cons_of_mem _ ha)
    refine ⟨c :: cs, ?_⟩
    rw [List.mapM_cons, hc, hcs]
    rfl

/-! ## Assembling -/

/-- An assembled program has the data words of its text, and an instruction for every entry;
and the text is well formed. -/
theorem resolves_of_assemble {p : Program} (h : assemble text = .ok p) :
    ∃ L, parsed? text = some L ∧ WellFormed L ∧ p.data = (dataSegments L).head? ∧
      List.Forall₂ (Entry.Resolves L) (entries L) p.instructions := by
  obtain ⟨d, hread, hprogram⟩ := except_bind_eq_ok_iff.1 h
  obtain ⟨instructions, hresolve, hp⟩ := except_bind_eq_ok_iff.1 hprogram
  cases hp
  obtain ⟨L, hL, hd⟩ := reads_of_read hread
  have hboth := forall₂_of_mapM (S := fun e i => Entry.Closed L e ∧ Entry.Resolves L e i)
    (f := Draft.resolve d.symbols) (fun _ _ _ hx hi => hd.resolve hx hi) hd.pending hresolve
  obtain ⟨hclosed, hinstructions⟩ := (List.forall₂_and_left _ _).1 hboth
  refine ⟨L, hL, ⟨hd.readable, hclosed⟩, ?_, hinstructions⟩
  rw [hd.segments]
  cases d.data with
  | none => rfl
  | some words => rfl

theorem exists_assemble (hL : parsed? text = some L) (h : WellFormed L) :
    ∃ p, assemble text = .ok p := by
  obtain ⟨d, hread⟩ := exists_read hL h.toReadable
  obtain ⟨K, hK, hd⟩ := reads_of_read hread
  cases hL.symm.trans hK
  obtain ⟨instructions, hresolve⟩ := exists_mapM (P := Entry.Closed L)
    (f := Draft.resolve d.symbols) (fun _ _ hx hclosed => hd.exists_resolve hx hclosed)
    hd.pending h.operands
  refine ⟨⟨d.data, instructions⟩, ?_⟩
  rw [assemble, except_bind_eq_ok_iff]
  refine ⟨d, hread, ?_⟩
  rw [Draft.program, except_bind_eq_ok_iff]
  exact ⟨instructions, hresolve, rfl⟩

theorem Entry.Resolves.becomes {i : Instruction} (h : e.Resolves L i)
    (hsmall : (entries L).length < 2147483648) : e.Becomes L i := by
  refine ⟨h.opcode, ?_, ?_⟩
  · rw [h.argument]
    cases e.operand with
    | none => exact .none
    | some o =>
      cases o with
      | literal arg => exact .literal arg
      | label name =>
        have hle := address_le L name
        exact .label (Word.toInt_wrap (by omega) (by omega))
  · rw [h.term]
    rfl

/-- A text is a program exactly if its lines follow the grammar and are well formed, and then
the program is what the lines mean. -/
theorem assemble_means (text : List Char) :
    ((∃ p, assemble text = .ok p) ↔ ∃ L, parsed? text = some L ∧ WellFormed L) ∧
      ∀ p, assemble text = .ok p → p.length < 2147483648 →
        ∃ L, parsed? text = some L ∧ Means L p := by
  refine ⟨⟨?_, ?_⟩, ?_⟩
  · rintro ⟨p, hp⟩
    obtain ⟨L, hL, hwell, -⟩ := resolves_of_assemble hp
    exact ⟨L, hL, hwell⟩
  · rintro ⟨L, hL, hwell⟩
    exact exists_assemble hL hwell
  · intro p hp hsmall
    obtain ⟨L, hL, -, hdata, hinstructions⟩ := resolves_of_assemble hp
    rw [Program.length, ← hinstructions.length_eq] at hsmall
    exact ⟨L, hL, hdata, hinstructions.imp fun _ _ h => h.becomes hsmall⟩

/-- Two labels on one instruction, a jump forward over a data line to the end of the text, and
a jump back. -/
def crossingText : List Char :=
  "head:\nagain: jnt end # out \n.data 7 -1\nPUSH 'x'\n  jmp head\nend:".toList

def crossingProgram : Program where
  data := some [Word.wrap 7, Word.wrap (-1)]
  instructions :=
    [⟨.jnt, some (.number (.wrap 3)), some ⟨2, "out", "jnt end"⟩⟩,
      ⟨.push, some (.char 'x'), some ⟨4, "", "PUSH 'x'"⟩⟩,
      ⟨.jmp, some (.number (.wrap 0)), some ⟨5, "", "jmp head"⟩⟩]

theorem assemble_means_crossing :
    assemble crossingText = .ok crossingProgram ∧ crossingProgram.length < 2147483648 ∧
      ∃ L, parsed? crossingText = some L ∧ Means L crossingProgram := by
  have hassemble : assemble crossingText = .ok crossingProgram := by decide +kernel
  have hsmall : crossingProgram.length < 2147483648 := by decide
  exact ⟨hassemble, hsmall, (assemble_means crossingText).2 crossingProgram hassemble hsmall⟩

end Microstack.Assembly
