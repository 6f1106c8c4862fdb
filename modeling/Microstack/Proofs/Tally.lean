/-
# `Microstack.Proofs.Tally` — adding to a tally

A tally has a count for each opcode, at the place of its code.  Adding to it changes one
count and the total, by the same number; and the total is the sum of the counts of all
opcodes.
-/
import Mathlib.Algebra.GroupWithZero.Nat
import Microstack.Run

namespace Microstack

theorem Opcode.code_injective {a b : Opcode} (h : a.code = b.code) : a = b := by
  have ha := ofCode?_code a
  rw [h, ofCode?_code] at ha
  exact (Option.some.inj ha).symm

theorem sum_set {l : List Nat} {i : Nat} (hi : i < l.length) (n : Nat) :
    (l.set i (l[i] + n)).sum = l.sum + n := by
  induction l generalizing i with
  | nil => cases hi
  | cons a l ih =>
    cases i with
    | zero =>
      simp only [List.set_cons_zero, List.getElem_cons_zero, List.sum_cons]
      omega
    | succ i =>
      have hi : i < l.length := Nat.lt_of_succ_lt_succ hi
      simp only [List.set_cons_succ, List.getElem_cons_succ, List.sum_cons, ih hi]
      omega

namespace Tally

variable (t : Tally) (op : Opcode) (n : Nat)

theorem get_add (o : Opcode) : (t.add op n).get o = t.get o + if o = op then n else 0 := by
  by_cases h : o = op
  · subst h
    simp [get, add]
  · have hcode : op.code ≠ o.code := fun heq => h (Opcode.code_injective heq).symm
    have hne : (op.code : Nat) ≠ o.code := fun heq => hcode (Fin.ext heq)
    simp [get, add, h, Vector.getElem_set_ne _ _ hne]

theorem add_zero : t.add op 0 = t := by
  simp [add]

theorem length_toList : t.toList.length = Opcode.count := by
  rw [toList, Vector.length_toList]

theorem code_lt_length : op.code < t.toList.length := by
  rw [length_toList]
  exact op.code.isLt

theorem total_add : (t.add op n).total = t.total + n := by
  have hlt := t.code_lt_length op
  have hset : (t.add op n).toList = t.toList.set op.code (t.toList[op.code] + n) := by
    simp [toList, add, Vector.toList_set]
  show (t.add op n).toList.sum = t.toList.sum + n
  rw [hset]
  exact sum_set hlt n

theorem get_zero : zero.get op = 0 := by
  simp [get, zero]

theorem total_zero : zero.total = 0 := by
  decide

theorem toList_eq_map : t.toList = Opcode.all.map t.get := by
  have hcode : ∀ k : Fin Opcode.count, (Opcode.all[k]).code = k := by decide
  refine List.ext_getElem t.length_toList ?_
  intro k hk _
  have hlt : k < Opcode.count := Nat.lt_of_lt_of_eq hk t.length_toList
  have hplace : ((Opcode.all[k]).code : Nat) = k := congrArg Fin.val (hcode ⟨k, hlt⟩)
  rw [List.getElem_map]
  simp only [toList, get, Vector.getElem_toList]
  exact getElem_congr_idx hplace.symm

theorem total_eq_sum : t.total = (Opcode.all.map t.get).sum := by
  rw [← toList_eq_map]
  rfl

end Tally

end Microstack
