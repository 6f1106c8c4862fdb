/-
# `Microstack.Proofs.Json` — what is written can be read back

Writing a value and reading the text gives the value back (`parse_text`), if the
value is `Plain`: no doubles, integers that are read exactly, and no more arrays
and objects inside each other than the reader keeps open.

Everything before that follows one pattern.  A writer puts some characters in front
of a text, and the reader, on reaching them, comes out at that text with what was
written:

    stringBody (escaped characters ++ '"' :: rest)  =  the characters, and rest
    number     (digits ++ rest)                     =  the integer, and rest
    readFrom   a value wanted, (written v ++ rest)  =  readFrom v complete, rest

The reader looks at the character behind a number to see where it ends, so there
the text must go on in one of the ways in which the writer goes on (`Ends`).
-/
import Microstack.Json.Reader
import Microstack.Json.Writer

namespace Microstack.Json

/-! ## Strings -/

theorem hexUnit_controlDigits {n : Nat} (hn : n < 0x20) (rest : List Char) :
    hexUnit (controlDigits n ++ rest) = .ok (n, rest) := by
  have hall : ∀ n < 0x20, (controlDigits n).all Numeral.isHexDigit = true := by decide
  have hvalue : ∀ n < 0x20, Numeral.hexValue (controlDigits n) = n := by decide
  have hall := hall n hn
  have hvalue := hvalue n hn
  simp only [controlDigits] at hall hvalue ⊢
  simp only [List.cons_append, List.nil_append, hexUnit, if_pos hall, hvalue]

theorem escape_control {c : Char} (hc : c.toNat < 0x20) (rest : List Char) :
    escape ('u' :: (controlDigits c.toNat ++ rest)) = .ok (c, rest) := by
  simp only [escape, unicodeEscape, hexUnit_controlDigits hc]
  rw [if_neg (by omega), if_neg (by omega), Char.ofNat_toNat]

theorem stringBody_escape {c : Char} {cs rest : List Char} (h : escape cs = .ok (c, rest)) :
    stringBody ('\\' :: cs) = (stringBody rest).map fun r => (c :: r.1, r.2) := by
  rw [stringBody]
  simp only [show ('\\' : Char) ≠ '"' by decide, if_false, if_true]
  split
  · next e he =>
    rw [h] at he
    cases he
  · next d rest' he =>
    rw [h] at he
    cases he
    cases stringBody rest with
    | error e => rfl
    | ok r => rfl

theorem stringBody_plain {c : Char} (hquote : c ≠ '"') (hback : c ≠ '\\')
    (hcontrol : ¬ c.toNat < 0x20) (rest : List Char) :
    stringBody (c :: rest) = (stringBody rest).map fun r => (c :: r.1, r.2) := by
  rw [stringBody, if_neg hquote, if_neg hback, if_neg hcontrol]
  cases stringBody rest with
  | error e => rfl
  | ok r => rfl

theorem stringBody_escaped (c : Char) (rest : List Char) :
    stringBody (escaped c ++ rest) = (stringBody rest).map fun r => (c :: r.1, r.2) := by
  have hcode {n : Nat} (h : c.toNat = n) : c = Char.ofNat n := by rw [← h, Char.ofNat_toNat]
  unfold escaped
  split
  · next h => subst h; exact stringBody_escape rfl
  split
  · next h => subst h; exact stringBody_escape rfl
  split
  · next h => subst h; exact stringBody_escape rfl
  split
  · next h => subst h; exact stringBody_escape rfl
  split
  · next h => subst h; exact stringBody_escape rfl
  split
  · next h => rw [hcode h]; exact stringBody_escape rfl
  split
  · next h => rw [hcode h]; exact stringBody_escape rfl
  split
  · next h => exact stringBody_escape (escape_control h rest)
  · next hquote hback _ _ _ _ _ hcontrol => exact stringBody_plain hquote hback hcontrol rest

theorem stringBody_quoted (cs rest : List Char) :
    stringBody (cs.flatMap escaped ++ '"' :: rest) = .ok (cs, rest) := by
  induction cs with
  | nil =>
    rw [List.flatMap_nil, List.nil_append, stringBody]
    rfl
  | cons c cs ih =>
    rw [List.flatMap_cons, List.append_assoc, stringBody_escaped, ih]
    rfl

/-! ## Numbers -/

/-- How the text goes on behind a value that was written: not at all, with a comma,
or with a new line. -/
def Ends : List Char → Prop
  | [] => True
  | c :: _ => c = ',' ∨ c = '\n'

theorem decimal_eq_cons {n : Nat} (hn : 0 < n) :
    ∃ c ds, Numeral.decimal n = c :: ds ∧ c ≠ '0' := by
  induction n using Nat.strongRecOn with
  | ind n ih =>
    rw [Numeral.decimal, Nat.toDigits_eq_if (by decide)]
    split
    · next hlt =>
      have hne : ∀ n < 10, 0 < n → n.digitChar ≠ '0' := by decide
      exact ⟨_, [], rfl, hne n hlt hn⟩
    · next hge =>
      obtain ⟨c, ds, hds, hc⟩ := ih (n / 10) (by omega) (by omega)
      rw [Numeral.decimal] at hds
      exact ⟨c, ds ++ [(n % 10).digitChar], by rw [hds]; rfl, hc⟩

theorem decimal_head (n : Nat) : ∃ c ds, Numeral.decimal n = c :: ds ∧ c.isDigit = true := by
  obtain ⟨c, ds, hds⟩ := List.exists_cons_of_ne_nil (Nat.toDigits_ne_nil (n := n) (b := 10))
  exact ⟨c, ds, hds, Numeral.isDigit_of_mem_decimal (n := n) (by rw [Numeral.decimal, hds]; simp)⟩

theorem integer_head (n : Int) :
    ∃ c cs, Numeral.integer n = c :: cs ∧ (c = '-' ∨ c.isDigit = true) := by
  cases n with
  | ofNat n =>
    obtain ⟨c, cs, hcs, hc⟩ := decimal_head n
    exact ⟨c, cs, hcs, .inr hc⟩
  | negSucc n => exact ⟨'-', _, rfl, .inl rfl⟩

theorem digits_decimal (n : Nat) {rest : List Char} (hrest : Ends rest) :
    digits (Numeral.decimal n ++ rest) = .ok (Numeral.decimal n, rest) := by
  have hdigit : ∀ c ∈ Numeral.decimal n, c.isDigit = true :=
    fun _ => Numeral.isDigit_of_mem_decimal
  -- The digits go on as far as the number does, and no further.
  have hstop : rest.takeWhile Char.isDigit = [] ∧ rest.dropWhile Char.isDigit = rest := by
    cases rest with
    | nil => exact ⟨rfl, rfl⟩
    | cons c rest =>
      rcases hrest with rfl | rfl
      · exact ⟨rfl, rfl⟩
      · exact ⟨rfl, rfl⟩
  have hne : Numeral.decimal n ≠ [] := Nat.toDigits_ne_nil
  rw [digits, List.takeWhile_append_of_pos hdigit, List.dropWhile_append_of_pos hdigit, hstop.1,
    hstop.2, List.append_nil]
  split
  · next h => exact absurd h hne
  · rfl

theorem wholePart_decimal (n : Nat) {rest : List Char} (hrest : Ends rest) :
    wholePart (Numeral.decimal n ++ rest) = .ok (Numeral.decimal n, rest) := by
  rcases Nat.eq_zero_or_pos n with rfl | hn
  · cases rest with
    | nil => rfl
    | cons c rest =>
      rcases hrest with rfl | rfl
      · rfl
      · rfl
  · obtain ⟨c, ds, hds, hc⟩ := decimal_eq_cons hn
    rw [← digits_decimal n hrest, hds]
    unfold wholePart
    split
    · next heq => exact absurd (List.cons.inj heq).1 hc
    · rfl

theorem fractionPart_of_ends {rest : List Char} (hrest : Ends rest) :
    fractionPart rest = .ok ([], rest) := by
  cases rest with
  | nil => rfl
  | cons c rest =>
    rcases hrest with rfl | rfl
    · rfl
    · rfl

theorem exponentPart_of_ends {rest : List Char} (hrest : Ends rest) :
    exponentPart rest = .ok (none, rest) := by
  cases rest with
  | nil => rfl
  | cons c rest =>
    rcases hrest with rfl | rfl
    · rfl
    · rfl

theorem le_ofDigitChars (ds : List Char) (n : Nat) : n ≤ Nat.ofDigitChars 10 ds n := by
  induction ds generalizing n with
  | nil => exact Nat.le_refl n
  | cons c ds ih =>
    rw [Nat.ofDigitChars_cons]
    exact Nat.le_trans (by omega) (ih _)

theorem absorb_of_le {ds : List Char} {n : Nat} (h : Nat.ofDigitChars 10 ds n ≤ maxSignificand) :
    absorb n ds = (Nat.ofDigitChars 10 ds n, []) := by
  induction ds generalizing n with
  | nil => rfl
  | cons c ds ih =>
    rw [Nat.ofDigitChars_cons] at h ⊢
    have hnext := Nat.le_trans (le_ofDigitChars ds _) h
    simp only [absorb]
    rw [if_pos hnext, ih h]

theorem number_of_sign {cs : List Char} {negative : Bool} {n : Nat} {rest : List Char}
    (hsign : numberSign cs = (negative, Numeral.decimal n ++ rest)) (hn : n ≤ maxSignificand)
    (hrest : Ends rest) : number cs = .ok (exactInteger negative n, rest) := by
  have hvalue : Nat.ofDigitChars 10 (Numeral.decimal n) 0 = n := Numeral.value_decimal n
  have habsorb : absorb 0 (Numeral.decimal n) = (n, []) := by
    rw [absorb_of_le (by rw [hvalue]; exact hn), hvalue]
  simp only [number, numberText, hsign, wholePart_decimal n hrest, fractionPart_of_ends hrest,
    exponentPart_of_ends hrest, NumberText.value, habsorb]
  rfl

theorem number_integer {n : Int} (hlow : -9223372036854775808 ≤ n)
    (hhigh : n ≤ 18446744073709551615) {rest : List Char} (hrest : Ends rest) :
    number (Numeral.integer n ++ rest) = .ok (.int n, rest) := by
  have hmax : maxSignificand = 18446744073709551615 := rfl
  cases n with
  | ofNat n =>
    rw [Int.ofNat_eq_natCast] at hhigh
    have hsign : numberSign (Numeral.decimal n ++ rest) = (false, Numeral.decimal n ++ rest) := by
      obtain ⟨c, ds, hds, hc⟩ := decimal_head n
      rw [hds]
      unfold numberSign
      split
      · next heq =>
        rw [(List.cons.inj heq).1] at hc
        exact absurd hc (by decide)
      · rfl
    exact number_of_sign hsign (by omega) hrest
  | negSucc n =>
    have hsign : numberSign (Numeral.integer (.negSucc n) ++ rest) =
      (true, Numeral.decimal (n + 1) ++ rest) := rfl
    rw [number_of_sign hsign (by omega) hrest, exactInteger, if_neg (by decide),
      if_pos ⟨by omega, by omega⟩]
    rfl

/-! ## The reader, step by step -/

/-- Unless a value is complete and nothing is open, a step is taken at the next
character that is not white space. -/
theorem readFrom_eq {state : State} (hstate : ∀ v, state ≠ .after v []) (cs : List Char) :
    readFrom state cs =
      match step state (skipSpace cs) with
      | .error e => .error e
      | .ok (next, rest) => readFrom next rest := by
  rw [readFrom.eq_def]
  split
  · exact absurd rfl (hstate _)
  · exact absurd rfl (hstate _)
  · split
    · next h => simp only [h]
    · next h => simp only [h]

theorem readFrom_step {state next : State} {cs rest : List Char}
    (hstate : ∀ v, state ≠ .after v []) (h : step state (skipSpace cs) = .ok (next, rest)) :
    readFrom state cs = readFrom next rest := by
  rw [readFrom_eq hstate, h]

theorem readFrom_end (v : Json) : readFrom (.after v []) [] = .ok v := by
  rw [readFrom.eq_def]
  rfl

theorem skipSpace_newLine (level : Nat) (cs : List Char) :
    skipSpace (newLine level ++ cs) = skipSpace cs := by
  have hspaces : ∀ c ∈ newLine level, isSpace c = true := by
    intro c hc
    rw [newLine, List.mem_cons] at hc
    rcases hc with rfl | hc
    · rfl
    · obtain rfl := List.eq_of_mem_replicate hc
      rfl
  exact List.dropWhile_append_of_pos hspaces

theorem readFrom_newLine {state : State} (hstate : ∀ v, state ≠ .after v []) (level : Nat)
    (cs : List Char) : readFrom state (newLine level ++ cs) = readFrom state cs := by
  rw [readFrom_eq hstate, readFrom_eq hstate, skipSpace_newLine]

/-! ## Values -/

/-- The values that are read back as they were written, with the arrays and objects
inside each other counted. -/
inductive Plain : Nat → Json → Prop
  | null {n : Nat} : Plain n .null
  | bool {n : Nat} {b : Bool} : Plain n (.bool b)
  | int {n : Nat} {k : Int} : -9223372036854775808 ≤ k → k ≤ 18446744073709551615 →
      Plain n (.int k)
  | string {n : Nat} {s : String} : Plain n (.string s)
  | array {n : Nat} {items : List Json} : (∀ v ∈ items, Plain n v) → Plain (n + 1) (.array items)
  | object {n : Nat} {fields : List (String × Json)} : (∀ f ∈ fields, Plain n f.2) →
      Plain (n + 1) (.object fields)

/-- A value that was written is read, wherever it stands. -/
def Reads (n : Nat) (v : Json) : Prop :=
  ∀ (level : Nat) (frames : List Frame) (rest : List Char), frames.length + n ≤ maxDepth →
    Ends rest → readFrom (.value frames) (render level v ++ rest) = readFrom (.after v frames) rest

theorem renderItems_ends (level : Nat) (items : List Json) (rest : List Char) :
    Ends (renderItems level items ++ rest) := by
  cases items with
  | nil => exact .inr rfl
  | cons v items => exact .inl rfl

theorem renderFields_ends (level : Nat) (fields : List (String × Json)) (rest : List Char) :
    Ends (renderFields level fields ++ rest) := by
  cases fields with
  | nil => exact .inr rfl
  | cons f fields => exact .inl rfl

theorem readFrom_renderItems {n level : Nat} {items : List Json}
    (hitems : ∀ v ∈ items, Reads n v) {v : Json} {read : List Json} {frames : List Frame}
    {rest : List Char} (hdepth : frames.length + 1 + n ≤ maxDepth) :
    readFrom (.after v (.array read :: frames)) (renderItems level items ++ rest) =
      readFrom (.after (.array (read.reverse ++ v :: items)) frames) rest := by
  have hopen {v : Json} {read : List Json} (w : Json) :
      State.after v (.array read :: frames) ≠ .after w [] := by simp
  induction items generalizing v read with
  | nil =>
    rw [renderItems, List.append_assoc, readFrom_newLine hopen]
    refine (readFrom_step hopen rfl).trans ?_
    rw [List.reverse_cons]
    rfl
  | cons w items ih =>
    have hw := hitems w (by simp) (level + 1) (.array (v :: read) :: frames)
      (renderItems level items ++ rest) hdepth (renderItems_ends level items rest)
    rw [renderItems, List.cons_append, readFrom_step hopen rfl, List.append_assoc,
      List.append_assoc, readFrom_newLine (by simp), hw, ih fun v hv => hitems v (by simp [hv])]
    simp

theorem readFrom_field {state : State} {read : List (String × Json)} {frames : List Frame}
    (hstate : ∀ v, state ≠ .after v [])
    (hkey : ∀ cs, step state ('"' :: cs) = keyStep read frames cs) (level : Nat) (key : String)
    (cs : List Char) :
    readFrom state (newLine level ++ (quoted key.toList ++ ([':', ' '] ++ cs))) =
      readFrom (.value (.object read key :: frames)) cs := by
  have hstep : step state (skipSpace (quoted key.toList ++ ([':', ' '] ++ cs))) =
      .ok (.value (.object read key :: frames), ' ' :: cs) := by
    show step state ('"' :: (key.toList.flatMap escaped ++ ['"'] ++ (':' :: ' ' :: cs))) = _
    rw [hkey, List.append_assoc, keyStep, List.singleton_append, stringBody_quoted]
    show Except.ok (State.value (.object read (String.ofList key.toList) :: frames), ' ' :: cs) = _
    rw [String.ofList_toList]
  rw [readFrom_newLine hstate, readFrom_step hstate hstep, readFrom_eq (by simp),
    readFrom_eq (by simp)]
  rfl

theorem readFrom_renderFields {n level : Nat} {fields : List (String × Json)}
    (hfields : ∀ f ∈ fields, Reads n f.2) {key : String} {v : Json}
    {read : List (String × Json)} {frames : List Frame} {rest : List Char}
    (hdepth : frames.length + 1 + n ≤ maxDepth) :
    readFrom (.after v (.object read key :: frames)) (renderFields level fields ++ rest) =
      readFrom (.after (.object (read.reverse ++ (key, v) :: fields)) frames) rest := by
  have hopen {v : Json} {read : List (String × Json)} {key : String} (w : Json) :
      State.after v (.object read key :: frames) ≠ .after w [] := by simp
  induction fields generalizing key v read with
  | nil =>
    rw [renderFields, List.append_assoc, readFrom_newLine hopen]
    refine (readFrom_step hopen rfl).trans ?_
    rw [List.reverse_cons]
    rfl
  | cons f fields ih =>
    obtain ⟨k, w⟩ := f
    have hw := hfields (k, w) (by simp) (level + 1) (.object ((key, v) :: read) k :: frames)
      (renderFields level fields ++ rest) hdepth (renderFields_ends level fields rest)
    rw [renderFields, List.cons_append, readFrom_step hopen rfl]
    simp only [List.append_assoc]
    rw [readFrom_field (by simp) (fun _ => rfl), hw, ih fun f hf => hfields f (by simp [hf])]
    simp

/-- No value starts with white space or with the end of an array. -/
theorem render_eq_cons {n : Nat} {v : Json} (h : Plain n v) (level : Nat) :
    ∃ c cs, render level v = c :: cs ∧ isSpace c = false ∧ c ≠ ']' := by
  cases h with
  | null => exact ⟨'n', _, rfl, rfl, by decide⟩
  | @bool _ b =>
    cases b with
    | false => exact ⟨'f', _, rfl, rfl, by decide⟩
    | true => exact ⟨'t', _, rfl, rfl, by decide⟩
  | @int _ k _ _ =>
    obtain ⟨c, cs, hcs, hc⟩ := integer_head k
    refine ⟨c, cs, by rw [render]; exact hcs, ?_, ?_⟩
    · refine Bool.eq_false_iff.2 fun hspace => ?_
      simp only [isSpace, Bool.or_eq_true, beq_iff_eq] at hspace
      rcases hspace with ((rfl | rfl) | rfl) | rfl
      all_goals exact absurd hc (by decide)
    · rintro rfl
      exact absurd hc (by decide)
  | string => exact ⟨'"', _, by rw [render]; rfl, rfl, by decide⟩
  | @array _ items _ =>
    cases items with
    | nil => exact ⟨'[', _, by rw [render], rfl, by decide⟩
    | cons v items => exact ⟨'[', _, by rw [render], rfl, by decide⟩
  | @object _ fields _ =>
    cases fields with
    | nil => exact ⟨'{', _, by rw [render], rfl, by decide⟩
    | cons f fields => exact ⟨'{', _, by rw [render], rfl, by decide⟩

theorem valueStep_number {frames : List Frame} {c : Char} {cs : List Char}
    (hc : c = '-' ∨ c.isDigit = true) {v : Json} {rest : List Char}
    (h : number (c :: cs) = .ok (v, rest)) :
    valueStep frames (c :: cs) = .ok (.after v frames, rest) := by
  unfold valueStep
  split
  · next heq => cases heq
  iterate 6
    · next heq =>
      obtain rfl := (List.cons.inj heq).1
      exact absurd hc (by decide)
  · rw [h]

theorem reads_int {n : Nat} {k : Int} (hlow : -9223372036854775808 ≤ k)
    (hhigh : k ≤ 18446744073709551615) : Reads n (.int k) := by
  intro level frames rest _ hrest
  have hnumber := number_integer hlow hhigh hrest
  obtain ⟨c, cs, hcs, hc⟩ := integer_head k
  obtain ⟨_, _, hrender, hspace, -⟩ := render_eq_cons (n := n) (.int hlow hhigh) level
  rw [render] at hrender ⊢
  obtain ⟨rfl, rfl⟩ := List.cons.inj (hrender.symm.trans hcs)
  rw [hcs] at hnumber ⊢
  refine readFrom_step (by simp) ?_
  rw [List.cons_append, skipSpace, List.dropWhile_cons_of_neg (by simp [hspace])]
  exact valueStep_number hc hnumber

theorem step_firstItem {frames : List Frame} {c : Char} {cs : List Char} (hne : c ≠ ']') :
    step (.firstItem frames) (c :: cs) = valueStep (.array [] :: frames) (c :: cs) := by
  rw [step]
  intro rest heq
  exact hne (List.cons.inj heq).1

theorem reads_array {n : Nat} {items : List Json} (hplain : ∀ v ∈ items, Plain n v)
    (hitems : ∀ v ∈ items, Reads n v) : Reads (n + 1) (.array items) := by
  intro level frames rest hdepth hrest
  have hlt : frames.length < maxDepth := by omega
  have hopen (cs : List Char) :
      readFrom (.value frames) ('[' :: cs) = readFrom (.firstItem frames) cs := by
    refine readFrom_step (by simp) ?_
    show (if frames.length < maxDepth then _ else _) = _
    rw [if_pos hlt]
  cases items with
  | nil =>
    rw [render, List.cons_append, hopen]
    exact readFrom_step (by simp) rfl
  | cons v items =>
    have hv := hitems v (by simp) (level + 1) (.array [] :: frames)
      (renderItems level items ++ rest) (by simp only [List.length_cons]; omega)
      (renderItems_ends level items rest)
    -- The first item is read like any other, since it does not look like the end.
    have hfirst : readFrom (.firstItem frames)
        (render (level + 1) v ++ (renderItems level items ++ rest)) =
          readFrom (.value (.array [] :: frames))
            (render (level + 1) v ++ (renderItems level items ++ rest)) := by
      obtain ⟨c, cs, hcs, hspace, hne⟩ := render_eq_cons (hplain v (by simp)) (level + 1)
      rw [readFrom_eq (by simp), readFrom_eq (by simp), hcs, List.cons_append, skipSpace,
        List.dropWhile_cons_of_neg (by simp [hspace]), step_firstItem hne]
      rfl
    rw [render, List.cons_append, hopen, List.append_assoc, List.append_assoc,
      readFrom_newLine (by simp), hfirst, hv,
      readFrom_renderItems (fun v hv => hitems v (by simp [hv])) (by omega)]
    rfl

theorem reads_object {n : Nat} {fields : List (String × Json)}
    (hfields : ∀ f ∈ fields, Reads n f.2) : Reads (n + 1) (.object fields) := by
  intro level frames rest hdepth hrest
  have hlt : frames.length < maxDepth := by omega
  have hopen (cs : List Char) :
      readFrom (.value frames) ('{' :: cs) = readFrom (.firstKey frames) cs := by
    refine readFrom_step (by simp) ?_
    show (if frames.length < maxDepth then _ else _) = _
    rw [if_pos hlt]
  cases fields with
  | nil =>
    rw [render, List.cons_append, hopen]
    exact readFrom_step (by simp) rfl
  | cons f fields =>
    obtain ⟨key, v⟩ := f
    have hv := hfields (key, v) (by simp) (level + 1) (.object [] key :: frames)
      (renderFields level fields ++ rest) (by simp only [List.length_cons]; omega)
      (renderFields_ends level fields rest)
    rw [render, List.cons_append, hopen]
    simp only [List.append_assoc]
    rw [readFrom_field (by simp) (fun _ => rfl), hv,
      readFrom_renderFields (fun f hf => hfields f (by simp [hf])) (by omega)]
    rfl

theorem reads_of_plain {n : Nat} {v : Json} (h : Plain n v) : Reads n v := by
  induction h with
  | null =>
    intro level frames rest _ _
    rw [render]
    exact readFrom_step (by simp) rfl
  | @bool _ b =>
    intro level frames rest _ _
    cases b with
    | false =>
      rw [render]
      exact readFrom_step (by simp) rfl
    | true =>
      rw [render]
      exact readFrom_step (by simp) rfl
  | int hlow hhigh => exact reads_int hlow hhigh
  | @string _ s =>
    intro level frames rest _ _
    rw [render]
    refine readFrom_step (by simp) ?_
    show valueStep frames ('"' :: (s.toList.flatMap escaped ++ ['"'] ++ rest)) = _
    rw [valueStep, List.append_assoc, List.singleton_append, stringBody_quoted]
    show Except.ok (State.after (.string (String.ofList s.toList)) frames, rest) = _
    rw [String.ofList_toList]
  | array hplain ih => exact reads_array hplain ih
  | object _ ih => exact reads_object ih

/-- What is written can be read back. -/
theorem parse_text {v : Json} (h : Plain maxDepth v) : parse v.text.toList = .ok v := by
  have hread := reads_of_plain h 0 [] [] (by simp) trivial
  rw [List.append_nil, readFrom_end] at hread
  rw [parse, text, String.toList_ofList, hread]

end Microstack.Json
