/-
# `Microstack.Proofs.SymbolTable` — what a table knows after an insertion

The table keeps two lists, but it answers as one: `address?` as a map from labels,
and `label?` as a map from program counters in which the first label stays.  Both
are said here of a table with one more label, and nothing outside this module looks
at the two lists:

    insert?  fails                  the label is defined already
    address? after insert? l pc     l gives pc, all other labels as before
    label?   after insert? l pc     as before, and l where pc had no label
-/
import Microstack.SymbolTable

namespace Microstack.SymbolTable

variable {t t' : SymbolTable} {label : String} {pc : Nat}

@[simp]
theorem address?_empty (label : String) : empty.address? label = none := rfl

@[simp]
theorem label?_empty (pc : Nat) : empty.label? pc = none := rfl

theorem contains_eq_false_iff : t.contains label = false ↔ t.address? label = none := by
  rw [contains, Option.isSome_eq_false_iff, Option.isNone_iff_eq_none]

theorem ne_of_lookup {entries : List (String × Nat)} (h : entries.lookup label = none)
    {entry : String × Nat} (hentry : entry ∈ entries) : entry.1 ≠ label :=
  Ne.symm (bne_iff_ne.1 (List.lookup_eq_none_iff.1 h entry hentry))

theorem not_mem_of_lookup {entries : List (String × Nat)} (h : entries.lookup label = none) :
    label ∉ entries.map Prod.fst := by
  intro hmem
  obtain ⟨entry, hentry, hlabel⟩ := List.mem_map.1 hmem
  exact ne_of_lookup h hentry hlabel

theorem label?_eq_none_iff : t.label? pc = none ↔ pc ∉ t.primary.map Prod.snd := by
  rw [label?, Option.map_eq_none_iff, List.find?_eq_none, List.mem_map]
  constructor
  · rintro hnone ⟨entry, hentry, hpc⟩
    exact hnone entry hentry (decide_eq_true hpc)
  · intro hnone entry hentry hpc
    exact hnone ⟨entry, hentry, of_decide_eq_true hpc⟩

/-! ## Inserting -/

/-- All that is relied on where a pair is put into the one-to-one map: with a label and a
program counter that are both new, the pair is added and nothing else changes. -/
def AddsNew (add : PairInsert) : Prop :=
  ∀ entries label pc, label ∉ entries.map Prod.fst → pc ∉ entries.map Prod.snd →
    add entries label pc = entries ++ [(label, pc)]

theorem addsNew_pair : AddsNew pair := by
  intro entries label pc hlabel hpc
  have hkeep : entries.filter (fun entry => entry.1 ≠ label ∧ entry.2 ≠ pc) = entries := by
    rw [List.filter_eq_self]
    intro entry hentry
    refine decide_eq_true ⟨?_, ?_⟩
    · rintro rfl
      exact hlabel (List.mem_map_of_mem hentry)
    · rintro rfl
      exact hpc (List.mem_map_of_mem hentry)
  rw [pair, hkeep]

theorem assign_of_new {entries : List (String × Nat)} (h : entries.lookup label = none) :
    assign entries label pc = entries ++ [(label, pc)] := by
  have hkeep : entries.filter (fun entry => entry.1 ≠ label) = entries := by
    rw [List.filter_eq_self]
    intro entry hentry
    exact decide_eq_true (ne_of_lookup h hentry)
  rw [assign, hkeep]

variable {add : PairInsert}

theorem insertBy_of_contains (h : t.contains label = true) :
    insertBy add label pc t = .error label t := by
  rw [insertBy, if_pos h]

/-- A label that is new goes to the aliases if its program counter has a label, and to the
primary labels if it has none.  Nothing is overwritten. -/
theorem insertBy_of_new (hadd : AddsNew add) (h : t.address? label = none) :
    insertBy add label pc t = .ok () (if (t.label? pc).isSome
      then { t with aliases := t.aliases ++ [(label, pc)] }
      else { t with primary := t.primary ++ [(label, pc)] }) := by
  obtain ⟨hprimary, haliases⟩ := Option.or_eq_none_iff.1 h
  rw [insertBy, contains_eq_false_iff.2 h, if_neg Bool.false_ne_true]
  split
  · rw [assign_of_new haliases]
  · next hlabel =>
    rw [Bool.not_eq_true, Option.isSome_eq_false_iff, Option.isNone_iff_eq_none] at hlabel
    rw [hadd _ _ _ (not_mem_of_lookup hprimary) (label?_eq_none_iff.1 hlabel)]

theorem insert_of_contains (h : t.contains label = true) : insert label pc t = .error label t :=
  insertBy_of_contains h

theorem insert_of_new (h : t.address? label = none) :
    insert label pc t = .ok () (if (t.label? pc).isSome
      then { t with aliases := t.aliases ++ [(label, pc)] }
      else { t with primary := t.primary ++ [(label, pc)] }) :=
  insertBy_of_new addsNew_pair h

theorem insertBy_eq_insert (hadd : AddsNew add) : insertBy add = insert := by
  funext label pc t
  cases hlabel : t.contains label with
  | true => rw [insertBy_of_contains hlabel, insert_of_contains hlabel]
  | false =>
    have hnew := contains_eq_false_iff.1 hlabel
    rw [insertBy_of_new hadd hnew, insert_of_new hnew]

theorem insert?_eq_none_iff : t.insert? label pc = none ↔ t.address? label ≠ none := by
  cases haddress : t.address? label with
  | none => simp [insert?, insert_of_new haddress]
  | some k =>
    have hdefined : t.contains label = true := by rw [contains, haddress, Option.isSome_some]
    simp [insert?, insert_of_contains hdefined]

theorem address?_of_insert? (h : t.insert? label pc = some t') : t.address? label = none := by
  cases haddress : t.address? label with
  | none => rfl
  | some k =>
    have hnone : t.insert? label pc = none := insert?_eq_none_iff.2 (by simp [haddress])
    rw [hnone] at h
    cases h

theorem insert?_cases (h : t.insert? label pc = some t') :
    (t.label? pc ≠ none ∧ t' = { t with aliases := t.aliases ++ [(label, pc)] }) ∨
    (t.label? pc = none ∧ t' = { t with primary := t.primary ++ [(label, pc)] }) := by
  rw [insert?, insert_of_new (address?_of_insert? h)] at h
  cases hlabel : t.label? pc with
  | none =>
    rw [hlabel] at h
    cases h
    exact .inr ⟨rfl, rfl⟩
  | some first =>
    rw [hlabel] at h
    cases h
    exact .inl ⟨Option.some_ne_none first, rfl⟩

theorem lookup_singleton (label key : String) (pc : Nat) :
    [(label, pc)].lookup key = if key = label then some pc else none := by
  by_cases hkey : key = label
  · simp [hkey]
  · have hne : (key == label) = false := by simp [hkey]
    simp [List.lookup_cons, hne, hkey]

theorem address?_insert? (h : t.insert? label pc = some t') (key : String) :
    t'.address? key = if key = label then some pc else t.address? key := by
  have hnew := address?_of_insert? h
  rw [address?, Option.or_eq_none_iff] at hnew
  have hlookup : t'.address? key =
      ((t.primary.lookup key).or (t.aliases.lookup key)).or ([(label, pc)].lookup key) := by
    rcases insert?_cases h with ⟨-, rfl⟩ | ⟨-, rfl⟩
    · simp only [address?, List.lookup_append, Option.or_assoc]
    · simp only [address?, List.lookup_append, Option.or_assoc]
      congr 1
      -- The new label is no alias, so it does not matter which list is asked first.
      rw [lookup_singleton]
      by_cases hkey : key = label
      · simp [hkey, hnew.2]
      · simp [hkey]
  rw [hlookup, lookup_singleton]
  by_cases hkey : key = label
  · subst hkey
    simp [hnew.1, hnew.2]
  · simp [hkey, address?]

theorem label?_insert? (h : t.insert? label pc = some t') (k : Nat) :
    t'.label? k = (t.label? k).or (if k = pc then some label else none) := by
  rcases insert?_cases h with ⟨hlabel, rfl⟩ | ⟨-, rfl⟩
  · show t.label? k = _
    by_cases hk : k = pc
    · subst hk
      obtain ⟨first, hfirst⟩ := Option.ne_none_iff_exists'.1 hlabel
      simp [hfirst]
    · simp [hk]
  · simp only [label?, List.find?_append, Option.map_or]
    congr 1
    by_cases hk : k = pc
    · simp [hk]
    · have hpc : pc ≠ k := Ne.symm hk
      simp [hk, hpc]

end Microstack.SymbolTable
