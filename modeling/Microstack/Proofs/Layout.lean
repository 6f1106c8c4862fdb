/-
# `Microstack.Proofs.Layout` — a line of assembly as it is put together

A line is put together from

    line       blank* [label blank*] [statement blank*] ['#' comment]
    label      name blank* ':'
    statement  '.data' (blank+ number)*  |  name [blank+ operand]
    operand    number  |  a quoted character  |  name

A `Layout` is one way to do so, with every blank and every digit in its place.
`Layout.chars` is the text of that line and `Layout.line` what it says.  The types below carry
the rules of the grammar, so a layout that can be built is one of the grammar.

A reader is `Exact` for one part of a line if it accepts what the part has and nothing else.
It takes as much as it can, so what stands behind a part must not look like more of it:
`Stops p rest` says that `rest` does not start with a character of the class `p`.  As no two
parts of a kind have the same text, exactness gives uniqueness as well (`Exact.unique`).

This module has the readers of names, numbers, characters and operands;
`Microstack.Proofs.Grammar` goes on with statements and lines.
-/
import Microstack.Assembly.Line

namespace Microstack

/-- Every character is the one with its code point, and no other code point has a
character. -/
theorem Glyph.ofCode?_eq_some_iff {n : Nat} {c : Char} : ofCode? n = some c ↔ c.toNat = n := by
  constructor
  · intro h
    unfold ofCode? at h
    split at h
    · next hvalid =>
      obtain rfl := Option.some.inj h
      have hchar : n.isValidChar := hvalid
      rw [Char.ofNat, dif_pos hchar]
      rfl
    · cases h
  · rintro rfl
    have hvalid : c.toNat < 0xD800 ∨ (0xDFFF < c.toNat ∧ c.toNat < 0x110000) := c.valid
    rw [ofCode?, if_pos hvalid, Char.ofNat_toNat]

namespace Assembly

/-! ## Where a token ends -/

/-- The text does not go on with a character of the class. -/
def Stops (p : Char → Bool) (rest : List Char) : Prop := ∀ c, rest.head? = some c → p c = false

theorem stops_nil (p : Char → Bool) : Stops p [] := by
  intro c h
  cases h

theorem stops_cons {p : Char → Bool} {c : Char} {rest : List Char} :
    Stops p (c :: rest) ↔ p c = false := by
  constructor
  · intro h
    exact h c rfl
  · intro h d hd
    cases hd
    exact h

section Classes

variable {p : Char → Bool} {cs rest : List Char}

theorem Stops.takeWhile (h : Stops p rest) : rest.takeWhile p = [] := by
  cases rest with
  | nil => rfl
  | cons c rest => rw [List.takeWhile_cons_of_neg (by simp [stops_cons.1 h])]

theorem Stops.dropWhile (h : Stops p rest) : rest.dropWhile p = rest := by
  cases rest with
  | nil => rfl
  | cons c rest => rw [List.dropWhile_cons_of_neg (by simp [stops_cons.1 h])]

theorem takeWhile_token (hcs : ∀ c ∈ cs, p c = true) (h : Stops p rest) :
    (cs ++ rest).takeWhile p = cs := by
  rw [List.takeWhile_append_of_pos hcs, h.takeWhile, List.append_nil]

theorem dropWhile_token (hcs : ∀ c ∈ cs, p c = true) (h : Stops p rest) :
    (cs ++ rest).dropWhile p = rest := by
  rw [List.dropWhile_append_of_pos hcs, h.dropWhile]

end Classes

/-! ## Names -/

def isName : List Char → Bool
  | [] => false
  | c :: cs => isNameStart c && cs.all isNamePart

theorem isName_cons {c : Char} {cs : List Char} :
    isName (c :: cs) = true ↔ isNameStart c = true ∧ ∀ d ∈ cs, isNamePart d = true := by
  rw [isName, Bool.and_eq_true, List.all_eq_true]

theorem isNamePart_of_isNameStart {c : Char} (h : isNameStart c = true) : isNamePart c = true := by
  simp only [isNameStart, Bool.or_eq_true] at h
  simp only [isNamePart, Char.isAlphanum, Bool.or_eq_true]
  rcases h with h | h
  · exact .inl (.inl h)
  · exact .inr h

theorem isNamePart_of_mem {cs : List Char} (h : isName cs = true) {c : Char} (hc : c ∈ cs) :
    isNamePart c = true := by
  cases cs with
  | nil => cases hc
  | cons d cs =>
    obtain ⟨hstart, hparts⟩ := isName_cons.1 h
    rcases List.mem_cons.1 hc with rfl | hc
    · exact isNamePart_of_isNameStart hstart
    · exact hparts c hc

/-! ## Classes of characters -/

/-- No operand starts like a blank, a colon or a comment. -/
def isOperandStart (c : Char) : Bool := c == '-' || c.isDigit || c == '\'' || isNameStart c

theorem stops_of_isNameStart {p : Char → Bool} {c : Char} {cs : List Char}
    (hc : isNameStart c = true) (hp : ∀ d, p d = true → isNameStart d = false) :
    Stops p (c :: cs) := by
  rw [stops_cons]
  cases hpc : p c with
  | false => rfl
  | true =>
    rw [hp c hpc] at hc
    cases hc

theorem isNameStart_of_isDigit {c : Char} (hc : c.isDigit = true) : isNameStart c = false := by
  have hcodes : ∀ n < 58, 48 ≤ n → isNameStart (Char.ofNat n) = false := by decide
  simp only [Char.isDigit, Bool.and_eq_true, decide_eq_true_eq] at hc
  have hn := hcodes c.toNat (Nat.lt_succ_of_le hc.2) hc.1
  rwa [Char.ofNat_toNat] at hn

theorem not_isBlank_of_isOperandStart (c : Char) (h : isOperandStart c = true) :
    isBlank c = false := by
  cases hblank : isBlank c with
  | false => rfl
  | true =>
    simp only [isBlank, Bool.or_eq_true, beq_iff_eq] at hblank
    rcases hblank with rfl | rfl
    · exact absurd h (by decide)
    · exact absurd h (by decide)

theorem not_isNamePart_of_isBlank (c : Char) (h : isBlank c = true) : isNamePart c = false := by
  simp only [isBlank, Bool.or_eq_true, beq_iff_eq] at h
  rcases h with rfl | rfl
  · rfl
  · rfl

theorem Stops.isDigit {rest : List Char} (h : Stops isNamePart rest) :
    Stops Char.isDigit rest := by
  intro c hc
  have hpart := h c hc
  simp only [isNamePart, Char.isAlphanum, Bool.or_eq_false_iff] at hpart
  exact hpart.1.2

/-! ## The parts of a line -/

@[ext]
structure Blanks where
  chars : List Char
  blank : ∀ c ∈ chars, isBlank c = true

/-- One blank or more. -/
@[ext]
structure Gap extends Blanks where
  nonempty : chars ≠ []

@[ext]
structure NameText where
  chars : List Char
  named : isName chars = true

def NameText.text (t : NameText) : String := String.ofList t.chars

/-- A number: perhaps a sign, and digits whose value is that of a word. -/
@[ext]
structure NumberText where
  negative : Bool
  digits : List Char
  word : Word
  nonempty : digits ≠ []
  isDigit : ∀ c ∈ digits, c.isDigit = true
  word_eq : word.toInt = if negative then -(Numeral.value digits : Int) else Numeral.value digits

def NumberText.chars (t : NumberText) : List Char :=
  (if t.negative then ['-'] else []) ++ t.digits

/-- The letters that may follow a backslash, with what they stand for. -/
def escapes : List (Char × Char) :=
  [('n', '\n'), ('t', '\t'), ('r', '\r'), ('0', Char.ofNat 0), ('\\', '\\'), ('\'', '\''),
    ('"', '"')]

/-- A character between its quotes: itself, a letter after a backslash, or its code point in
hexadecimal digits. -/
inductive QuotedText
  | plain (c : Char) : c ≠ '\\' → c ≠ '\'' → QuotedText
  | escape (letter c : Char) : (letter, c) ∈ escapes → QuotedText
  | code (digits : List Char) (c : Char) : digits ≠ [] →
      (∀ d ∈ digits, Numeral.isHexDigit d = true) → c.toNat = Numeral.hexValue digits → QuotedText

namespace QuotedText

def chars : QuotedText → List Char
  | plain c _ _ => [c]
  | escape letter _ _ => ['\\', letter]
  | code digits _ _ _ _ => '\\' :: 'u' :: '{' :: (digits ++ ['}'])

def value : QuotedText → Char
  | plain c _ _ => c
  | escape _ c _ => c
  | code _ c _ _ _ => c

end QuotedText

inductive OperandText
  | number (t : NumberText)
  | character (t : QuotedText)
  | name (t : NameText)

namespace OperandText

def chars : OperandText → List Char
  | number t => t.chars
  | character t => '\'' :: (t.chars ++ ['\''])
  | name t => t.chars

def value : OperandText → Operand
  | number t => .literal (.number t.word)
  | character t => .literal (.char t.value)
  | name t => .label t.text

end OperandText

/-- The text of something with a gap in front of it. -/
def spacedChars {P : Type} (chars : P → List Char) (t : Gap × P) : List Char :=
  t.1.chars ++ chars t.2

inductive StatementText
  | data (numbers : List (Gap × NumberText))
  | instruction (mnemonic : NameText) (operand : Option (Gap × OperandText))

/-- The numbers of a statement, each after its gap. -/
def dataChars (ts : List (Gap × NumberText)) : List Char :=
  ts.flatMap (spacedChars NumberText.chars)

/-- The operand of a statement, if it has one. -/
def operandChars : Option (Gap × OperandText) → List Char
  | none => []
  | some t => spacedChars OperandText.chars t

namespace StatementText

def chars : StatementText → List Char
  | data numbers => ".data".toList ++ dataChars numbers
  | instruction mnemonic operand => mnemonic.chars ++ operandChars operand

def value : StatementText → Statement
  | data numbers => .data (numbers.map fun t => t.2.word)
  | instruction mnemonic operand => .instruction mnemonic.text (operand.map fun t => t.2.value)

end StatementText

/-- A label with its colon. -/
structure LabelText where
  name : NameText
  blanks : Blanks

def LabelText.chars (t : LabelText) : List Char := t.name.chars ++ (t.blanks.chars ++ [':'])

/-- The text of something optional with the blanks after it. -/
def optionalChars {P : Type} (chars : P → List Char) : Option (P × Blanks) → List Char
  | none => []
  | some (p, b) => chars p ++ b.chars

def commentChars : Option (List Char) → List Char
  | none => []
  | some comment => '#' :: comment

/-- A line, as it is put together. -/
@[ext]
structure Layout where
  lead : Blanks
  label : Option (LabelText × Blanks)
  statement : Option (StatementText × Blanks)
  comment : Option (List Char)

namespace Layout

def chars (d : Layout) : List Char :=
  d.lead.chars ++ (optionalChars LabelText.chars d.label ++
    (optionalChars StatementText.chars d.statement ++ commentChars d.comment))

def line (d : Layout) : Line where
  label := d.label.map fun t => t.1.name.text
  statement := d.statement.map fun t => t.1.value
  comment := d.comment.map String.ofList

end Layout

/-! ## Exact readers -/

/-- The reader accepts the texts of a part of the grammar, with what they stand for, and
nothing else.  Only the part is taken if what is behind it is an end of the part. -/
structure Exact {P α : Type} (reader : Reader α) (chars : P → List Char) (value : P → α)
    (Ends : List Char → Prop) : Prop where
  sound : ∀ {cs rest : List Char} {a : α}, reader cs = some (a, rest) →
    ∃ p, chars p ++ rest = cs ∧ value p = a
  complete : ∀ (p : P) {rest : List Char}, Ends rest →
    reader (chars p ++ rest) = some (value p, rest)
  injective : Function.Injective chars

theorem value_eq_of_chars_eq {P α : Type} {reader : Reader α} {chars : P → List Char}
    {value : P → α} (hread : ∀ p, reader (chars p ++ []) = some (value p, [])) {p p' : P}
    (heq : chars p = chars p') : value p = value p' := by
  have hvalue := hread p
  rw [heq, hread p'] at hvalue
  exact (Prod.mk.inj (Option.some.inj hvalue)).1.symm

/-- A text is cut into a part and an end in one way only. -/
theorem Exact.unique {P α : Type} {reader : Reader α} {chars : P → List Char} {value : P → α}
    {Ends : List Char → Prop} (h : Exact reader chars value Ends) {p p' : P}
    {rest rest' : List Char} (hrest : Ends rest) (hrest' : Ends rest')
    (heq : chars p ++ rest = chars p' ++ rest') : p = p' ∧ rest = rest' := by
  have hread := h.complete p hrest
  rw [heq, h.complete p' hrest'] at hread
  obtain ⟨-, rfl⟩ := Prod.mk.inj (Option.some.inj hread)
  exact ⟨h.injective (List.append_cancel_right heq), rfl⟩

/-! ### Blanks -/

theorem Blanks.skip (b : Blanks) {rest : List Char} (hrest : Stops isBlank rest) :
    skipBlanks (b.chars ++ rest) = rest :=
  dropWhile_token b.blank hrest

theorem Blanks.unique {b b' : Blanks} {rest rest' : List Char} (hrest : Stops isBlank rest)
    (hrest' : Stops isBlank rest') (heq : b.chars ++ rest = b'.chars ++ rest') :
    b = b' ∧ rest = rest' := by
  have hskip := b.skip hrest
  rw [heq, b'.skip hrest'] at hskip
  subst hskip
  exact ⟨Blanks.ext (List.append_cancel_right heq), rfl⟩

theorem exists_blanks (cs : List Char) : ∃ b : Blanks, b.chars ++ skipBlanks cs = cs :=
  ⟨⟨cs.takeWhile isBlank, List.all_eq_true.1 List.all_takeWhile⟩,
    List.takeWhile_append_dropWhile⟩

theorem Gap.blanks (g : Gap) {rest : List Char} (hrest : Stops isBlank rest) :
    blanks (g.chars ++ rest) = some rest := by
  obtain ⟨⟨cs, hblank⟩, hne⟩ := g
  cases cs with
  | nil => exact absurd rfl hne
  | cons c cs =>
    simp only [List.cons_append, Assembly.blanks, hblank c List.mem_cons_self, if_true]
    rw [skipBlanks, dropWhile_token (fun d hd => hblank d (List.mem_cons_of_mem c hd)) hrest]

theorem Gap.stops (g : Gap) {p : Char → Bool} (hp : ∀ c, isBlank c = true → p c = false)
    (rest : List Char) : Stops p (g.chars ++ rest) := by
  obtain ⟨⟨cs, hblank⟩, hne⟩ := g
  cases cs with
  | nil => exact absurd rfl hne
  | cons c cs => exact stops_cons.2 (hp c (hblank c List.mem_cons_self))

theorem exists_gap {cs rest : List Char} (h : blanks cs = some rest) :
    ∃ g : Gap, g.chars ++ rest = cs := by
  unfold blanks at h
  split at h
  · next c cs =>
    split at h
    · next hc =>
      cases h
      obtain ⟨b, hb⟩ := exists_blanks cs
      refine ⟨⟨⟨c :: b.chars, ?_⟩, List.cons_ne_nil c _⟩, congrArg (c :: ·) hb⟩
      intro d hd
      rcases List.mem_cons.1 hd with rfl | hd
      · exact hc
      · exact b.blank d hd
    · cases h
  · cases h

theorem Exact.spaced {P α : Type} {reader : Reader α} {chars : P → List Char} {value : P → α}
    {Ends : List Char → Prop} (h : Exact reader chars value Ends)
    (hstops : ∀ p rest, Stops isBlank (chars p ++ rest)) :
    Exact (fun cs => (blanks cs).bind reader) (spacedChars chars) (fun t => value t.2) Ends where
  sound := by
    intro cs rest a hread
    obtain ⟨mid, hblanks, hmid⟩ := Option.bind_eq_some_iff.1 hread
    obtain ⟨g, rfl⟩ := exists_gap hblanks
    obtain ⟨p, rfl, hp⟩ := h.sound hmid
    exact ⟨(g, p), List.append_assoc _ _ _, hp⟩
  complete := by
    rintro ⟨g, p⟩ rest hrest
    have hgap := g.blanks (hstops p rest)
    simp only [spacedChars, List.append_assoc, hgap, Option.bind_some, h.complete p hrest]
  injective := by
    rintro ⟨g, p⟩ ⟨g', p'⟩ heq
    have hstop (q : P) : Stops isBlank (chars q) := by
      have hq := hstops q []
      rwa [List.append_nil] at hq
    obtain ⟨hblanks, hchars⟩ := Blanks.unique (hstop p) (hstop p') heq
    have hgap : g = g' := Gap.ext (congrArg Blanks.chars hblanks)
    rw [hgap, h.injective hchars]

/-! ### Names and numbers -/

theorem exact_name : Exact name NameText.chars NameText.text (Stops isNamePart) where
  sound := by
    intro cs rest s h
    unfold name at h
    split at h
    · next c cs =>
      split at h
      · next hc =>
        cases h
        refine ⟨⟨c :: cs.takeWhile isNamePart, isName_cons.2 ⟨hc, ?_⟩⟩, ?_, rfl⟩
        · exact List.all_eq_true.1 List.all_takeWhile
        · exact congrArg (c :: ·) List.takeWhile_append_dropWhile
      · cases h
    · cases h
  complete := by
    rintro ⟨cs, hcs⟩ rest hrest
    cases cs with
    | nil => cases hcs
    | cons c cs =>
      obtain ⟨hstart, hparts⟩ := isName_cons.1 hcs
      simp only [List.cons_append, name, hstart, if_true, takeWhile_token hparts hrest,
        dropWhile_token hparts hrest]
      rfl
  injective _ _ heq := NameText.ext heq

theorem magnitude_eq_some {negative : Bool} {cs rest : List Char} {w : Word}
    (h : magnitude negative cs = some (w, rest)) :
    ∃ t : NumberText, t.negative = negative ∧ t.digits ++ rest = cs ∧ t.word = w := by
  simp only [magnitude] at h
  split at h
  · cases h
  · next hne =>
    obtain ⟨word, hword, heq⟩ := Option.map_eq_some_iff.1 h
    cases heq
    refine ⟨⟨negative, cs.takeWhile Char.isDigit, w, ?_, List.all_eq_true.1 List.all_takeWhile,
      Word.ofInt?_eq_some_iff.1 hword⟩, rfl, List.takeWhile_append_dropWhile, rfl⟩
    intro hempty
    exact hne (List.isEmpty_iff.2 hempty)

theorem NumberText.magnitude (t : NumberText) {rest : List Char} (hrest : Stops Char.isDigit rest) :
    magnitude t.negative (t.digits ++ rest) = some (t.word, rest) := by
  have hne : t.digits.isEmpty = false := List.isEmpty_eq_false_iff.2 t.nonempty
  simp only [Assembly.magnitude, takeWhile_token t.isDigit hrest, dropWhile_token t.isDigit hrest,
    hne, Bool.false_eq_true, if_false, ← t.word_eq, Word.ofInt?_toInt, Option.map_some]

theorem NumberText.digits_ne_sign (t : NumberText) (rest cs : List Char) :
    t.digits ++ rest ≠ '-' :: cs := by
  intro heq
  cases hdigits : t.digits with
  | nil => exact t.nonempty hdigits
  | cons c ds =>
    have hc := t.isDigit c (by rw [hdigits]; exact List.mem_cons_self)
    rw [hdigits] at heq
    obtain ⟨rfl, -⟩ := List.cons.inj heq
    exact absurd hc (by decide)

theorem NumberText.chars_injective : Function.Injective NumberText.chars := by
  intro t t' heq
  have hparts : t.negative = t'.negative ∧ t.digits = t'.digits := by
    unfold NumberText.chars at heq
    have hsign := t.digits_ne_sign [] t'.digits
    have hsign' := t'.digits_ne_sign [] t.digits
    rw [List.append_nil] at hsign hsign'
    cases hn : t.negative with
    | true =>
      cases hn' : t'.negative with
      | true =>
        rw [hn, hn'] at heq
        exact ⟨rfl, (List.cons.inj heq).2⟩
      | false =>
        rw [hn, hn'] at heq
        exact absurd heq.symm hsign'
    | false =>
      cases hn' : t'.negative with
      | true =>
        rw [hn, hn'] at heq
        exact absurd heq hsign
      | false =>
        rw [hn, hn'] at heq
        exact ⟨rfl, heq⟩
  have hword : t.word = t'.word := by
    refine Word.ext ?_
    rw [t.word_eq, t'.word_eq, hparts.1, hparts.2]
  exact NumberText.ext hparts.1 hparts.2 hword

theorem exact_number : Exact number NumberText.chars NumberText.word (Stops Char.isDigit) where
  sound := by
    intro cs rest w h
    unfold number at h
    split at h
    · next cs =>
      obtain ⟨t, hsign, rfl, hw⟩ := magnitude_eq_some h
      exact ⟨t, by simp [NumberText.chars, hsign], hw⟩
    · obtain ⟨t, hsign, rfl, hw⟩ := magnitude_eq_some h
      exact ⟨t, by simp [NumberText.chars, hsign], hw⟩
  complete := by
    intro t rest hrest
    have hmagnitude := t.magnitude hrest
    cases hsign : t.negative with
    | true =>
      rw [hsign] at hmagnitude
      simp only [NumberText.chars, hsign, if_true, List.cons_append, List.nil_append, number]
      exact hmagnitude
    | false =>
      rw [hsign] at hmagnitude
      simp only [NumberText.chars, hsign, Bool.false_eq_true, if_false, List.nil_append]
      unfold number
      split
      · next heq => exact absurd heq (t.digits_ne_sign rest _)
      · exact hmagnitude
  injective := NumberText.chars_injective

theorem number_eq_none {cs : List Char} (h : Stops (fun c => c == '-' || c.isDigit) cs) :
    number cs = none := by
  cases cs with
  | nil => rfl
  | cons c cs =>
    have hc := stops_cons.1 h
    rw [Bool.or_eq_false_iff] at hc
    unfold number
    split
    · next heq =>
      obtain ⟨rfl, -⟩ := List.cons.inj heq
      simp at hc
    · have hdigits : (c :: cs).takeWhile Char.isDigit = [] :=
        (stops_cons (p := Char.isDigit)).2 hc.2 |>.takeWhile
      simp only [magnitude, hdigits]
      rfl

/-! ### Characters -/

theorem QuotedText.chars_injective : Function.Injective QuotedText.chars := by
  have hletter : ∀ x ∈ escapes, ∀ y ∈ escapes, x.1 = y.1 → x.2 = y.2 := by decide
  intro t t' heq
  cases t with
  | plain c _ _ =>
    cases t' with
    | plain _ _ _ =>
      cases heq
      rfl
    | escape _ _ _ => cases heq
    | code _ _ _ _ _ => cases heq
  | escape letter c hc =>
    cases t' with
    | plain _ _ _ => cases heq
    | escape letter' c' hc' =>
      cases heq
      cases hletter _ hc _ hc' rfl
      rfl
    | code digits _ _ _ _ => cases heq
  | code digits c hne hhex hc =>
    cases t' with
    | plain _ _ _ => cases heq
    | escape _ _ _ => cases heq
    | code digits' c' hne' hhex' hc' =>
      simp only [chars, List.cons.injEq, true_and] at heq
      obtain rfl := List.append_cancel_right heq
      obtain rfl : c = c' := Char.toNat_inj.1 (hc.trans hc'.symm)
      rfl

theorem escape_eq_some {cs rest : List Char} {c : Char} (h : escape cs = some (c, rest)) :
    ∃ t : QuotedText, t.chars ++ rest = '\\' :: cs ∧ t.value = c := by
  unfold escape at h
  split at h
  iterate 7
    · cases h
      exact ⟨.escape _ _ (by decide), rfl, rfl⟩
  · next cs =>
    simp only at h
    split at h
    · next d ds rest' hdigits hrest =>
      obtain ⟨found, hcode, heq⟩ := Option.map_eq_some_iff.1 h
      cases heq
      rw [hdigits] at hcode
      have hcs : (d :: ds) ++ '}' :: rest = cs := by
        rw [← hdigits, ← hrest, List.takeWhile_append_dropWhile]
      refine ⟨.code (d :: ds) c (List.cons_ne_nil d ds) ?_ (Glyph.ofCode?_eq_some_iff.1 hcode), ?_,
        rfl⟩
      · rw [← hdigits]
        exact List.all_eq_true.1 List.all_takeWhile
      · simp [QuotedText.chars, ← hcs]
    · cases h
  · cases h

theorem quotable_code {digits : List Char} {c : Char} (hne : digits ≠ [])
    (hhex : ∀ d ∈ digits, Numeral.isHexDigit d = true) (hc : c.toNat = Numeral.hexValue digits)
    (rest : List Char) :
    quotable ('\\' :: 'u' :: '{' :: (digits ++ '}' :: rest)) = some (c, rest) := by
  have hstop : Stops Numeral.isHexDigit ('}' :: rest) := stops_cons.2 (by decide)
  obtain ⟨d, ds, rfl⟩ := List.exists_cons_of_ne_nil hne
  simp only [quotable, escape, takeWhile_token hhex hstop, dropWhile_token hhex hstop,
    Glyph.ofCode?_eq_some_iff.2 hc, Option.map_some]

theorem quotable_plain {c : Char} (hback : c ≠ '\\') (hquote : c ≠ '\'') (rest : List Char) :
    quotable (c :: rest) = some (c, rest) := by
  unfold quotable
  split
  · next heq => exact absurd (List.cons.inj heq).1 hback
  · next heq => exact absurd (List.cons.inj heq).1 hquote
  · next heq =>
    cases heq
    rfl
  · next heq => cases heq

theorem exact_quotable :
    Exact quotable QuotedText.chars QuotedText.value (fun _ => True) where
  sound := by
    intro cs rest c h
    unfold quotable at h
    split at h
    · exact escape_eq_some h
    · cases h
    · next d rest' hback hquote =>
      cases h
      exact ⟨.plain c hback hquote, rfl, rfl⟩
    · cases h
  complete := by
    intro t rest _
    cases t with
    | plain c hback hquote => exact quotable_plain hback hquote rest
    | escape letter c hc =>
      simp only [escapes, List.mem_cons, List.not_mem_nil, or_false, Prod.mk.injEq] at hc
      rcases hc with ⟨rfl, rfl⟩ | ⟨rfl, rfl⟩ | ⟨rfl, rfl⟩ | ⟨rfl, rfl⟩ | ⟨rfl, rfl⟩ | ⟨rfl, rfl⟩ |
        ⟨rfl, rfl⟩
      all_goals rfl
    | code digits c hne hhex hc =>
      simp only [QuotedText.chars, List.cons_append, List.append_assoc, List.nil_append]
      exact quotable_code hne hhex hc rest
  injective := QuotedText.chars_injective

theorem character_quoted (t : QuotedText) (rest : List Char) :
    character ('\'' :: (t.chars ++ '\'' :: rest)) = some (t.value, rest) := by
  rw [character, exact_quotable.complete t trivial]
  rfl

theorem character_eq_some {cs rest : List Char} {c : Char} (h : character cs = some (c, rest)) :
    ∃ t : QuotedText, '\'' :: (t.chars ++ '\'' :: rest) = cs ∧ t.value = c := by
  unfold character at h
  split at h
  · next cs =>
    split at h
    · next d rest' hquotable =>
      cases h
      obtain ⟨t, rfl, ht⟩ := exact_quotable.sound hquotable
      exact ⟨t, rfl, ht⟩
    · cases h
  · cases h

theorem character_eq_none {cs : List Char} (h : Stops (· == '\'') cs) : character cs = none := by
  unfold character
  split
  · cases stops_cons.1 h
  · rfl

/-! ### Operands -/

theorem number_of_isName {cs : List Char} (h : isName cs = true) (rest : List Char) :
    number (cs ++ rest) = none := by
  cases cs with
  | nil => cases h
  | cons c cs =>
    refine number_eq_none (stops_of_isNameStart (isName_cons.1 h).1 fun d hd => ?_)
    rw [Bool.or_eq_true, beq_iff_eq] at hd
    rcases hd with rfl | hd
    · rfl
    · exact isNameStart_of_isDigit hd

theorem character_of_isName {cs : List Char} (h : isName cs = true) (rest : List Char) :
    character (cs ++ rest) = none := by
  cases cs with
  | nil => cases h
  | cons c cs =>
    refine character_eq_none (stops_of_isNameStart (isName_cons.1 h).1 fun d hd => ?_)
    rw [beq_iff_eq] at hd
    subst hd
    rfl

theorem operand_append (t : OperandText) {rest : List Char} (hrest : Stops isNamePart rest) :
    operand (t.chars ++ rest) = some (t.value, rest) := by
  cases t with
  | number t =>
    rw [operand, OperandText.chars, exact_number.complete t hrest.isDigit]
    rfl
  | character t =>
    have hnumber : number ('\'' :: (t.chars ++ '\'' :: rest)) = none :=
      number_eq_none (stops_cons.2 rfl)
    simp only [OperandText.chars, List.cons_append, List.append_assoc, List.nil_append, operand,
      hnumber, character_quoted]
    rfl
  | name t =>
    rw [OperandText.chars, operand, number_of_isName t.named, character_of_isName t.named,
      exact_name.complete t hrest]
    rfl

/-- Which kind of operand a text is, its value tells. -/
theorem OperandText.chars_injective : Function.Injective OperandText.chars := by
  intro t t' heq
  have hvalue := value_eq_of_chars_eq (fun t => operand_append t (stops_nil _)) heq
  cases t with
  | number t =>
    cases t' with
    | number t' => rw [NumberText.chars_injective heq]
    | character t' => cases hvalue
    | name t' => cases hvalue
  | character t =>
    cases t' with
    | number t' => cases hvalue
    | character t' =>
      have hchars := List.append_cancel_right (List.cons.inj heq).2
      rw [QuotedText.chars_injective hchars]
    | name t' => cases hvalue
  | name t =>
    cases t' with
    | number t' => cases hvalue
    | character t' => cases hvalue
    | name t' => rw [NameText.ext heq]

theorem exact_operand : Exact operand OperandText.chars OperandText.value (Stops isNamePart) where
  sound := by
    intro cs rest o h
    unfold operand at h
    split at h
    · next w rest' hnumber =>
      cases h
      obtain ⟨t, rfl, rfl⟩ := exact_number.sound hnumber
      exact ⟨.number t, rfl, rfl⟩
    · split at h
      · next c rest' hcharacter =>
        cases h
        obtain ⟨t, rfl, rfl⟩ := character_eq_some hcharacter
        exact ⟨.character t, by simp [OperandText.chars], rfl⟩
      · obtain ⟨⟨l, rest'⟩, hname, heq⟩ := Option.map_eq_some_iff.1 h
        cases heq
        obtain ⟨t, rfl, rfl⟩ := exact_name.sound hname
        exact ⟨.name t, rfl, rfl⟩
  complete t _ hrest := operand_append t hrest
  injective := OperandText.chars_injective

theorem OperandText.chars_eq_cons (t : OperandText) :
    ∃ c cs, t.chars = c :: cs ∧ isOperandStart c = true := by
  cases t with
  | number t =>
    obtain ⟨d, ds, hds⟩ := List.exists_cons_of_ne_nil t.nonempty
    have hd := t.isDigit d (by rw [hds]; exact List.mem_cons_self)
    cases hsign : t.negative with
    | true => exact ⟨'-', t.digits, by simp [chars, NumberText.chars, hsign], rfl⟩
    | false =>
      exact ⟨d, ds, by simp [chars, NumberText.chars, hsign, hds], by simp [isOperandStart, hd]⟩
  | character t => exact ⟨'\'', _, rfl, rfl⟩
  | name t =>
    obtain ⟨cs, hcs⟩ := t
    cases cs with
    | nil => cases hcs
    | cons c cs => exact ⟨c, cs, rfl, by simp [isOperandStart, (isName_cons.1 hcs).1]⟩

theorem OperandText.stops (t : OperandText) {p : Char → Bool}
    (hp : ∀ c, isOperandStart c = true → p c = false) (rest : List Char) :
    Stops p (t.chars ++ rest) := by
  obtain ⟨c, cs, hcs, hc⟩ := t.chars_eq_cons
  rw [hcs]
  exact stops_cons.2 (hp c hc)

theorem exact_spacedOperand :
    Exact (fun cs => (blanks cs).bind operand) (spacedChars OperandText.chars)
      (fun t => t.2.value) (Stops isNamePart) :=
  exact_operand.spaced fun t => t.stops not_isBlank_of_isOperandStart

theorem exact_spacedNumber :
    Exact spacedNumber (spacedChars NumberText.chars) (fun t => t.2.word)
      (Stops Char.isDigit) :=
  exact_number.spaced fun t => (OperandText.number t).stops not_isBlank_of_isOperandStart

end Assembly

end Microstack
