/-
# `Microstack.Proofs.Insertion` — a table is the history of its insertions

Whatever is inserted into an empty table, and however often that fails, the table knows the
pairs that were accepted and nothing else (`Records`):

    address?  of a label              the program counter it was accepted with
    label?    of a program counter    the first label accepted for it
    size                              the number of pairs

An insertion fails exactly if its label was accepted before, and then the table stays as it
is.  The two lists share the work (`Split`): the primary one is one to one, and an alias is a
label apart from it, of a program counter that has a primary label.

Nothing is relied on but that a pair is added to the one-to-one map where neither side is in it
yet (`AddsNew`): what else the map drives out for a pair, `insert` never asks of it.
-/
import Microstack.Proofs.Journal
import Microstack.Proofs.SymbolTable

namespace Microstack.SymbolTable

variable {add : PairInsert}

def insertPair (add : PairInsert) (entry : String × Nat) : EStateM String SymbolTable Unit :=
  insertBy add entry.1 entry.2

def filled (add : PairInsert) (entries : List (String × Nat)) : SymbolTable :=
  leavesAll (insertPair add) entries empty

/-- The insertions that were accepted, in order. -/
def accepted (add : PairInsert) (entries : List (String × Nat)) : List (String × Nat) :=
  journal (fun _ entry _ => entry) (insertPair add) entries empty

/-- How the two lists share the labels. -/
structure Split (t : SymbolTable) : Prop where
  /-- The primary list has every label once, and every program counter once. -/
  labels_nodup : (t.primary.map Prod.fst).Nodup
  addresses_nodup : (t.primary.map Prod.snd).Nodup
  /-- No alias is a primary label. -/
  apart : ∀ entry ∈ t.aliases, entry.1 ∉ t.primary.map Prod.fst
  /-- What an alias marks has a primary label. -/
  marked : ∀ entry ∈ t.aliases, entry.2 ∈ t.primary.map Prod.snd

/-- The table answers as a list of pairs does. -/
structure Records (history : List (String × Nat)) (t : SymbolTable) : Prop extends Split t where
  address : ∀ label pc, t.address? label = some pc ↔ (label, pc) ∈ history
  /-- The first pair that has the program counter decides. -/
  label : ∀ pc, t.label? pc = (history.find? fun entry => entry.2 = pc).map Prod.fst
  size : t.size = history.length

variable {t t' : SymbolTable} {history : List (String × Nat)} {label : String} {pc : Nat}

/-! ## One insertion -/

theorem insert_eq_error_iff {taken : String} :
    insert label pc t = .error taken t' ↔ t.address? label ≠ none ∧ taken = label ∧ t' = t := by
  cases haddress : t.address? label with
  | none => simp [insert_of_new haddress]
  | some k =>
    have hdefined : t.contains label = true := by rw [contains, haddress, Option.isSome_some]
    rw [insert_of_contains hdefined]
    simp [eq_comm]

theorem insert?_of_insert {u : Unit} (h : insert label pc t = .ok u t') :
    t.insert? label pc = some t' := by
  rw [insert?, h]

theorem nodup_map_concat {α β : Type} {f : α → β} {as : List α} {a : α} (h : (as.map f).Nodup)
    (hnew : f a ∉ as.map f) : ((as ++ [a]).map f).Nodup := by
  rw [List.map_append, List.map_singleton, List.nodup_append]
  refine ⟨h, List.pairwise_singleton _ _, ?_⟩
  rintro b hb c hc rfl
  exact hnew (List.mem_singleton.1 hc ▸ hb)

theorem Split.insert? (h : Split t) (hinsert : t.insert? label pc = some t') : Split t' := by
  obtain ⟨hprimary, haliases⟩ := Option.or_eq_none_iff.1 (address?_of_insert? hinsert)
  have hnew := not_mem_of_lookup hprimary
  rcases insert?_cases hinsert with ⟨hlabel, rfl⟩ | ⟨hlabel, rfl⟩
  · have hmarked : pc ∈ t.primary.map Prod.snd := by
      rwa [ne_eq, label?_eq_none_iff, Classical.not_not] at hlabel
    refine ⟨h.labels_nodup, h.addresses_nodup, fun entry hentry => ?_, fun entry hentry => ?_⟩
    · rcases List.mem_append.1 hentry with hold | hone
      · exact h.apart entry hold
      · obtain rfl := List.mem_singleton.1 hone
        exact hnew
    · rcases List.mem_append.1 hentry with hold | hone
      · exact h.marked entry hold
      · obtain rfl := List.mem_singleton.1 hone
        exact hmarked
  · refine ⟨nodup_map_concat h.labels_nodup hnew,
      nodup_map_concat h.addresses_nodup (label?_eq_none_iff.1 hlabel),
      fun entry hentry => ?_, fun entry hentry => ?_⟩
    · rw [List.map_append, List.mem_append, not_or]
      exact ⟨h.apart entry hentry, fun hone =>
        ne_of_lookup haliases hentry (List.mem_singleton.1 hone)⟩
    · rw [List.map_append]
      exact List.mem_append_left _ (h.marked entry hentry)

theorem size_insert? (hinsert : t.insert? label pc = some t') : t'.size = t.size + 1 := by
  rcases insert?_cases hinsert with ⟨-, rfl⟩ | ⟨-, rfl⟩
  · simp only [SymbolTable.size, List.length_append, List.length_singleton]
    omega
  · simp only [SymbolTable.size, List.length_append, List.length_singleton]
    omega

/-! ## The history -/

namespace Records

theorem empty : Records [] SymbolTable.empty where
  labels_nodup := List.nodup_nil
  addresses_nodup := List.nodup_nil
  apart _ hentry := absurd hentry List.not_mem_nil
  marked _ hentry := absurd hentry List.not_mem_nil
  address _ _ := by simp
  label _ := rfl
  size := rfl

theorem address?_ne_none_iff (h : Records history t) :
    t.address? label ≠ none ↔ label ∈ history.map Prod.fst := by
  rw [Option.ne_none_iff_exists', List.mem_map]
  constructor
  · rintro ⟨pc, hpc⟩
    exact ⟨(label, pc), (h.address label pc).1 hpc, rfl⟩
  · rintro ⟨⟨_, pc⟩, hmem, rfl⟩
    exact ⟨pc, (h.address _ pc).2 hmem⟩

/-- An accepted insertion is one more pair at the end of the history. -/
theorem insert? (h : Records history t) (hinsert : t.insert? label pc = some t') :
    Records (history ++ [(label, pc)]) t' where
  toSplit := h.toSplit.insert? hinsert
  address key k := by
    have hnew : ∀ k, (label, k) ∉ history := by
      intro k hmem
      have hnone := address?_of_insert? hinsert
      rw [(h.address label k).2 hmem] at hnone
      cases hnone
    rw [address?_insert? hinsert, List.mem_append, List.mem_singleton, Prod.mk.injEq]
    by_cases hkey : key = label
    · subst hkey
      simp [hnew k, eq_comm]
    · simp [hkey, h.address]
  label k := by
    rw [label?_insert? hinsert, h.label, List.find?_append, Option.map_or]
    by_cases hk : k = pc
    · simp [hk]
    · simp [hk, Ne.symm hk]
  size := by
    rw [size_insert? hinsert, h.size, List.length_append, List.length_singleton]

end Records

theorem records_filled (hadd : AddsNew add) (entries : List (String × Nat)) :
    Records (accepted add entries) (filled add entries) := by
  refine journal_keeps (R := Records) ?_ ?_ entries Records.empty
  · intro history t entry _ t' h hinsert
    rw [insertPair, insertBy_eq_insert hadd] at hinsert
    exact h.insert? (insert?_of_insert hinsert)
  · intro history t entry _ t' h hfail
    rw [insertPair, insertBy_eq_insert hadd] at hfail
    rw [(insert_eq_error_iff.1 hfail).2.2]
    exact h

/-- A table records the insertions that were accepted.  It refuses exactly the labels among
them, and a refused insertion might as well not have been made. -/
theorem table_records_insertions (hadd : AddsNew add) (entries : List (String × Nat)) :
    Records (accepted add entries) (filled add entries) ∧
      (∀ label pc taken t', insertBy add label pc (filled add entries) = .error taken t' ↔
        label ∈ (accepted add entries).map Prod.fst ∧ taken = label ∧ t' = filled add entries) ∧
      ∀ label pc later, label ∈ (accepted add entries).map Prod.fst →
        filled add (entries ++ (label, pc) :: later) = filled add (entries ++ later) := by
  have h := records_filled hadd entries
  have hrefused : ∀ label pc taken t',
      insertBy add label pc (filled add entries) = .error taken t' ↔
        label ∈ (accepted add entries).map Prod.fst ∧ taken = label ∧ t' = filled add entries := by
    intro label pc taken t'
    rw [insertBy_eq_insert hadd, insert_eq_error_iff, h.address?_ne_none_iff]
  refine ⟨h, hrefused, fun label pc later hlabel => ?_⟩
  have hsame : leaves (insertPair add (label, pc)) (filled add entries) = filled add entries :=
    leaves_of_error ((hrefused label pc label _).2 ⟨hlabel, rfl, rfl⟩)
  rw [filled, filled, leavesAll_append, leavesAll_append, leavesAll]
  exact congrArg (leavesAll (insertPair add) later) hsame

/-- A second label for a program counter is an alias, and a label that is taken is refused for
any program counter. -/
theorem table_records_insertions_alias :
    AddsNew pair ∧
      filled pair [("start", 0), ("loop", 0), ("loop", 5), ("end", 5)] =
        ⟨[("start", 0), ("end", 5)], [("loop", 0)]⟩ ∧
      Records [("start", 0), ("loop", 0), ("end", 5)]
        ⟨[("start", 0), ("end", 5)], [("loop", 0)]⟩ :=
  ⟨addsNew_pair, rfl, (table_records_insertions addsNew_pair
    [("start", 0), ("loop", 0), ("loop", 5), ("end", 5)]).1⟩

end Microstack.SymbolTable
