/-
# `Microstack.Proofs.Growth` — what a run only adds to

A run takes nothing back.  Tokens are appended to the output, and the ticks, the
instructions retired and both tallies go up or stay, whatever a step returns:

    every transfer    keeps what the machine has written and spent    `Machine.Grows`
    every step        keeps the tallies of the run as well            `Run.Grows`

So the report of a run that was stopped early is contained in the report of the same run
stopped later (`Report.Precedes`).
-/
import Microstack.Proofs.Accounting

namespace Microstack

/-! ## Machines -/

namespace Memory

variable {out : List String}

theorem leads_latch_output (a : Word) :
    Leads (fun m => out <+: m.output.toList) (latch a) fun m => out <+: m.output.toList := by
  intro m h
  by_cases hin : 0 ≤ a.toInt ∧ a.toInt ≤ m.size
  · simp only [latch, if_pos hin]
    exact h
  · simp only [latch, if_neg hin]
    exact h

theorem leads_read_output :
    Leads (fun m => out <+: m.output.toList) read fun m => out <+: m.output.toList := by
  intro m h
  simp only [read]
  cases m.latched with
  | outputPort => exact h
  | inputPort =>
    cases m.input with
    | nil => exact h
    | cons c rest => exact h
  | data _ =>
    cases m.dataIndex with
    | ok i => exact h
    | error f => exact h
  | program _ =>
    cases m.dataIndex with
    | ok i => exact h
    | error f => exact h

theorem leads_write_output (w : Word) :
    Leads (fun m => out <+: m.output.toList) (write w) fun m => out <+: m.output.toList := by
  intro m h
  simp only [write]
  cases m.latched with
  | inputPort => exact h
  | outputPort =>
    show out <+: (m.output.push (token w)).toList
    rw [Array.toList_push]
    exact h.trans (List.prefix_append _ _)
  | data _ =>
    cases m.dataIndex with
    | ok i => exact h
    | error f => exact h
  | program _ =>
    cases m.dataIndex with
    | ok i => exact h
    | error f => exact h

end Memory

namespace Machine

/-- What the first machine has written and spent, the second one has too. -/
structure Grows (m m' : Machine) : Prop where
  output : m.memory.output.toList <+: m'.memory.output.toList
  ticks : m.ticks ≤ m'.ticks

namespace Grows

variable {m m₀ m₁ m₂ : Machine}

theorem refl (m : Machine) : m.Grows m := ⟨List.prefix_refl _, Nat.le_refl _⟩

theorem trans (h : m₀.Grows m₁) (h' : m₁.Grows m₂) : m₀.Grows m₂ :=
  ⟨h.output.trans h'.output, Nat.le_trans h.ticks h'.ticks⟩

theorem leads_datapath {α : Type} (m₀ : Machine) (act : Datapath.Action α) :
    Leads m₀.Grows (Microcode.datapath act) m₀.Grows := by
  intro m h
  rw [Microcode.datapath_apply]
  cases act m.datapath with
  | ok a d => exact ⟨h.output, h.ticks⟩
  | error f d => exact ⟨h.output, h.ticks⟩

theorem leads_memory {α : Type} (m₀ : Machine) {act : Memory.Action α}
    (hact : ∀ out : List String,
      Leads (fun m => out <+: m.output.toList) act fun m => out <+: m.output.toList) :
    Leads m₀.Grows (Microcode.memory act) m₀.Grows :=
  Microcode.leads_memory (fun _ h => h.output) (fun _ _ => hact _) fun _ _ h hout =>
    ⟨hout, h.ticks⟩

theorem transfers (m₀ : Machine) : Transfers m₀.Grows m₀.Grows where
  transfer ht := by
    cases ht with
    | adjustHead _ => exact leads_datapath m₀ _
    | push _ => exact leads_datapath m₀ _
    | latchAlu _ => exact leads_datapath m₀ _
    | popTruth => exact leads_datapath m₀ _
    | accumulator => exact Microcode.leads_accumulator
    | top _ => exact Microcode.leads_inspect _
    | topIncremented _ => exact Microcode.leads_inspect _
    | operand _ => exact Microcode.leads_inspect _
    | latchAddress _ =>
      exact (Microcode.leads_inspect _).bind fun a =>
        leads_memory m₀ fun _ => Memory.leads_latch_output a
    | read => exact leads_memory m₀ fun _ => Memory.leads_read_output
    | write w => exact leads_memory m₀ fun _ => Memory.leads_write_output w
  tick := Leads.modify fun _ h => ⟨h.output, Nat.le_succ_of_le h.ticks⟩
  advance := fun _ h => ⟨h.output, Nat.le_succ_of_le h.ticks⟩
  jump _ := fun _ h => ⟨h.output, Nat.le_succ_of_le h.ticks⟩

theorem step (m : Machine) : m.Grows (leaves Machine.step m) :=
  ((transfers m).step fun _ _ h => ⟨h.output, h.ticks⟩).leaves (refl m)

end Grows

end Machine

/-! ## Runs -/

theorem Tally.get_le_add (t : Tally) (op o : Opcode) (n : Nat) : t.get o ≤ (t.add op n).get o := by
  rw [get_add]
  exact Nat.le_add_right _ _

namespace Run

/-- What the first run has written, spent and counted, the second one has too. -/
structure Grows (r r' : Run) : Prop where
  machine : r.machine.Grows r'.machine
  retired : r.retired ≤ r'.retired
  counts : ∀ op, r.counts.get op ≤ r'.counts.get op
  spent : ∀ op, r.spent.get op ≤ r'.spent.get op

variable {r r' r₁ r₂ : Run}

theorem Grows.refl (r : Run) : r.Grows r :=
  ⟨.refl _, Nat.le_refl _, fun _ => Nat.le_refl _, fun _ => Nat.le_refl _⟩

theorem Grows.trans (h : r.Grows r₁) (h' : r₁.Grows r₂) : r.Grows r₂ :=
  ⟨h.machine.trans h'.machine, Nat.le_trans h.retired h'.retired,
    fun op => Nat.le_trans (h.counts op) (h'.counts op),
    fun op => Nat.le_trans (h.spent op) (h'.spent op)⟩

theorem get_le_charged (spent : Tally) (before : Nat) (m : Machine) (op : Opcode) :
    spent.get op ≤ (charged spent before m).get op := by
  unfold charged
  split
  · exact spent.get_le_add _ _ _
  · exact Nat.le_refl _

theorem Grows.charge {m : Machine} (h : r.machine.Grows m) : r.Grows (r.charge m) :=
  ⟨h, Nat.le_refl _, fun _ => Nat.le_refl _, get_le_charged _ _ _⟩

theorem Grows.retire (r : Run) (op : Opcode) : r.Grows (r.retire op) :=
  ⟨.refl _, Nat.le_succ _, fun o => r.counts.get_le_add op o 1, fun _ => Nat.le_refl _⟩

theorem Grows.next (r : Run) : r.Grows r.next := by
  have hmachine := Machine.Grows.step r.machine
  rcases r.next_cases with ⟨-, hnext⟩ | ⟨-, op, m, hm, hnext⟩ | ⟨-, t, m, hm, hnext⟩
  · rw [hnext]
    exact .refl r
  · rw [leaves_of_ok hm] at hmachine
    rw [hnext]
    exact (Grows.charge hmachine).trans (.retire _ op)
  · rw [leaves_of_error hm] at hmachine
    rw [hnext]
    exact .charge hmachine

theorem Grows.finishWithin {n : Nat} {ending : Termination}
    (h : finishWithin n r = .ok (ending, r')) : r.Grows r' := by
  obtain ⟨last, hlast, hend⟩ := finishWithin_last (P := r.Grows)
    (fun r₁ _ hr hstep => next_of_step hstep ▸ hr.trans (.next r₁)) (.refl r) h
  rcases hend with ⟨-, rfl⟩ | hstep
  · exact hlast
  · exact next_of_step hstep ▸ hlast.trans (.next last)

theorem Grows.finishWithin_succ {n : Nat} {ending : Termination}
    (h : Run.finishWithin (n + 1) r = .ok (ending, r')) : r.next.Grows r' := by
  rw [Run.finishWithin] at h
  split at h
  · next mid hstep =>
    rw [next_of_step hstep]
    exact .finishWithin h
  · next found mid hstep =>
    cases h
    rw [next_of_step hstep]
    exact .refl _
  · cases h

end Run

/-! ## Reports -/

/-- The first report is contained in the second: its output is the beginning of the other's,
and no count is greater. -/
structure Report.Precedes (r r' : Report) : Prop where
  output : r.output <+: r'.output
  instructions : r.instructions ≤ r'.instructions
  ticks : r.ticks ≤ r'.ticks
  counts : ∀ op, r.counts.get op ≤ r'.counts.get op
  spent : ∀ op, r.spent.get op ≤ r'.spent.get op

theorem Report.Precedes.refl (r : Report) : r.Precedes r :=
  ⟨List.prefix_refl _, Nat.le_refl _, Nat.le_refl _, fun _ => Nat.le_refl _,
    fun _ => Nat.le_refl _⟩

theorem Run.Grows.report {r r' : Run} (h : r.Grows r') (ending ending' : Termination) :
    (r.report ending).Precedes (r'.report ending') :=
  ⟨h.machine.output, h.retired, h.machine.ticks, h.counts, h.spent⟩

end Microstack
