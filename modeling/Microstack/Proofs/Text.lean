/-
# `Microstack.Proofs.Text` — cutting a text into lines, and trimming

A text that was put together from lines, each with a line feed behind it, is cut
into the same lines, but for one carriage return at the end of each (`lines_join`).
Trimming does not notice that carriage return.
-/
import Microstack.Text.Line

namespace Microstack.Text

variable {l r : List Char}

/-! ## Lines -/

/-- A line as it is found again in a text: a carriage return at its end is lost. -/
def chomp (l : List Char) : List Char := endLine l.reverse

theorem chomp_append_return (l : List Char) : chomp (l ++ ['\r']) = l := by
  rw [chomp, List.reverse_append, List.reverse_singleton, List.singleton_append, endLine,
    List.reverse_reverse]

theorem chomp_append_singleton (l : List Char) {c : Char} (hc : c ≠ '\r') :
    chomp (l ++ [c]) = l ++ [c] := by
  rw [chomp, List.reverse_append, List.reverse_singleton, List.singleton_append]
  unfold endLine
  split
  · next heq => exact absurd (List.cons.inj heq).1 hc
  · rw [List.reverse_cons, List.reverse_reverse]

theorem chomp_cases (l : List Char) : chomp l = l ∨ ∃ k, l = k ++ ['\r'] ∧ chomp l = k := by
  rcases List.eq_nil_or_concat l with rfl | ⟨k, c, rfl⟩
  · exact .inl rfl
  · rw [List.concat_eq_append]
    by_cases hc : c = '\r'
    · subst hc
      exact .inr ⟨k, rfl, chomp_append_return k⟩
    · exact .inl (chomp_append_singleton k hc)

theorem chomp_of_not_mem (h : '\r' ∉ l) : chomp l = l := by
  rcases chomp_cases l with heq | ⟨k, rfl, -⟩
  · exact heq
  · exact absurd (List.mem_append_right k (List.mem_singleton.2 rfl)) h

theorem chomp_append (l : List Char) (hr : r ≠ []) : chomp (l ++ r) = l ++ chomp r := by
  rcases List.eq_nil_or_concat r with rfl | ⟨k, c, rfl⟩
  · exact absurd rfl hr
  · rw [List.concat_eq_append, ← List.append_assoc]
    by_cases hc : c = '\r'
    · subst hc
      rw [chomp_append_return, chomp_append_return]
    · rw [chomp_append_singleton _ hc, chomp_append_singleton _ hc, List.append_assoc]

theorem linesFrom_of_not_mem (h : '\n' ∉ l) (seen rest : List Char) :
    linesFrom seen (l ++ '\n' :: rest) = endLine (l.reverse ++ seen) :: lines rest := by
  induction l generalizing seen with
  | nil => rw [List.nil_append, linesFrom, if_pos rfl, List.reverse_nil, List.nil_append, lines]
  | cons c l ih =>
    rw [List.mem_cons, not_or] at h
    rw [List.cons_append, linesFrom, if_neg (Ne.symm h.1), ih h.2, List.reverse_cons,
      List.append_assoc, List.singleton_append]

theorem lines_join {ls : List (List Char)} (h : ∀ l ∈ ls, '\n' ∉ l) :
    lines (ls.flatMap (· ++ ['\n'])) = ls.map chomp := by
  induction ls with
  | nil => rfl
  | cons l ls ih =>
    rw [List.flatMap_cons, List.append_assoc, List.singleton_append, lines,
      linesFrom_of_not_mem (h l (by simp)), List.append_nil, ih fun k hk => h k (by simp [hk])]
    rfl

/-- A text that ends with a line is followed by the lines of what is put behind it. -/
theorem lines_append {text : List Char} (h : text = [] ∨ ∃ t, text = t ++ ['\n'])
    (more : List Char) : lines (text ++ more) = lines text ++ lines more := by
  rcases h with rfl | ⟨t, rfl⟩
  · rfl
  · rw [List.append_assoc, List.singleton_append]
    exact linesFrom_append [] t more

theorem not_mem_endLine {seen : List Char} (h : '\n' ∉ seen) : '\n' ∉ endLine seen := by
  unfold endLine
  split
  · rw [List.mem_cons, not_or] at h
    rw [List.mem_reverse]
    exact h.2
  · rw [List.mem_reverse]
    exact h

theorem not_mem_of_mem_linesFrom {seen text : List Char} (hseen : '\n' ∉ seen)
    (hl : l ∈ linesFrom seen text) : '\n' ∉ l := by
  induction text generalizing seen with
  | nil =>
    cases seen with
    | nil => cases hl
    | cons c seen =>
      obtain rfl := List.mem_singleton.1 hl
      rw [List.mem_reverse]
      exact hseen
  | cons c text ih =>
    rw [linesFrom] at hl
    split at hl
    · rcases List.mem_cons.1 hl with rfl | hl
      · exact not_mem_endLine hseen
      · exact ih (by simp) hl
    · next hc =>
      refine ih ?_ hl
      rw [List.mem_cons, not_or]
      exact ⟨Ne.symm hc, hseen⟩

theorem not_mem_of_mem_lines {text : List Char} (hl : l ∈ lines text) : '\n' ∉ l :=
  not_mem_of_mem_linesFrom (List.not_mem_nil) hl

/-! ## Trimming -/

theorem trim_cons {c : Char} (hc : isWhiteSpace c = true) (l : List Char) :
    trim (c :: l) = trim l := by
  rw [trim, List.dropWhile_cons_of_pos hc]
  rfl

theorem trim_append_singleton {c : Char} (hc : isWhiteSpace c = true) (l : List Char) :
    trim (l ++ [c]) = trim l := by
  simp only [trim, List.dropWhile_append]
  split
  · next hempty =>
    rw [List.isEmpty_iff] at hempty
    rw [hempty, List.dropWhile_cons_of_pos hc]
    rfl
  · rw [List.reverse_append, List.reverse_singleton, List.singleton_append,
      List.dropWhile_cons_of_pos hc]

theorem trim_chomp (l : List Char) : trim (chomp l) = trim l := by
  rcases chomp_cases l with heq | ⟨k, rfl, heq⟩
  · rw [heq]
  · rw [heq, trim_append_singleton (by decide)]

theorem mem_of_mem_trim {c : Char} (h : c ∈ trim l) : c ∈ l := by
  rw [trim, List.mem_reverse] at h
  have hreverse := (List.dropWhile_suffix _).subset h
  rw [List.mem_reverse] at hreverse
  exact (List.dropWhile_suffix _).subset hreverse

end Microstack.Text
