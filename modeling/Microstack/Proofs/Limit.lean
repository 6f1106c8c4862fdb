/-
# `Microstack.Proofs.Limit` — the limit on instructions only truncates

The limit of a run is looked at in one place, before each step.  A run under a higher limit
therefore takes the same steps, and where the lower limit cut it off it goes on:

    limit          ·──·──·──·│                 `.limitReached`
    higher limit   ·──·──·──·──·──·──·──│      may halt, run dry or fault on the way

`Run.finish_limited` is this picture as an equation.  A run that ended below the limit never
came to look at it; and one that was cut off has retired exactly as many instructions as it
was allowed to, a `HALT` that it had before it included in neither.

The loop of a run is bounded by what the limit leaves.  `Run.loop` is the loop without that
bound, and `Run.loop_eq` says that it ends all the same.
-/
import Microstack.Proofs.Growth
import Microstack.Proofs.Lockstep

namespace Microstack

namespace Run

variable {r r' : Run} {ending : Termination} {n limit : Nat}

/-! ## What a step does about the limit -/

theorem step_at_limit (h : r.limit ≤ r.retired) : step r = .ok (some .limitReached) r := by
  rw [step_apply, if_pos h]

theorem going_step (h : step r = .ok none r') :
    r'.retired = r.retired + 1 ∧ r'.limit = r.limit := by
  obtain ⟨-, -, -, -, -, -, hretired⟩ := retiring_step h
  exact ⟨hretired, next_of_step h ▸ limit_next r⟩

/-- A step that ends the run retires nothing, and says that the limit was reached exactly
if it was. -/
theorem ending_cases (h : step r = .ok (some ending) r') :
    r'.retired = r.retired ∧ (ending = .limitReached ↔ r.limit ≤ r.retired) := by
  have hresult := r.outcome
  rw [h] at hresult
  cases hresult with
  | limitReached hlimit => exact ⟨rfl, fun _ => hlimit, fun _ => rfl⟩
  | halted hlt _ => exact ⟨rfl, nofun, fun hle => absurd hle (Nat.not_le.2 hlt)⟩
  | inputExhausted hlt _ => exact ⟨rfl, nofun, fun hle => absurd hle (Nat.not_le.2 hlt)⟩

/-! ## The loop without a bound -/

/-- What stepping until the run ends comes to, if it does so within a number of steps. -/
def loop : Nat → Run → Option (Except ExecutionError (Termination × Run))
  | 0, _ => none
  | n + 1, r =>
    match step r with
    | .ok none r => loop n r
    | .ok (some ending) r => some (.ok (ending, r))
    | .error e _ => some (.error e)

/-- The loop needs one step more than the limit leaves instructions, and its result is that
of the bounded one. -/
theorem loop_eq (h : r.retired + n = r.limit) : loop (n + 1) r = some (finishWithin n r) := by
  induction n generalizing r with
  | zero =>
    rw [loop, step_at_limit (Nat.le_of_eq h.symm), finishWithin]
  | succ n ih =>
    rw [loop, finishWithin]
    cases hstep : step r with
    | error e _ => rfl
    | ok result mid =>
      cases result with
      | some ending => rfl
      | none =>
        obtain ⟨hretired, hlimit⟩ := going_step hstep
        exact ih (by omega)

/-! ## How far a run comes -/

theorem retired_of_limitReached (h : r.retired + n = r.limit)
    (hfinish : finishWithin n r = .ok (.limitReached, r')) : r'.retired = r.limit := by
  induction n generalizing r with
  | zero =>
    cases hfinish
    exact h
  | succ n ih =>
    rw [finishWithin] at hfinish
    split at hfinish
    · next mid hstep =>
      obtain ⟨hretired, hlimit⟩ := going_step hstep
      rw [← hlimit]
      exact ih (by omega) hfinish
    · next found mid hstep =>
      cases hfinish
      have hle := (ending_cases hstep).2.1 rfl
      omega
    · cases hfinish

theorem retired_lt_limit (hfinish : finishWithin n r = .ok (ending, r'))
    (hne : ending ≠ .limitReached) : r'.retired < r.limit := by
  obtain ⟨last, hlast, hend⟩ := finishWithin_last (P := fun s => s.limit = r.limit)
    (fun _ _ hs hstep => (going_step hstep).2.trans hs) rfl hfinish
  rcases hend with ⟨heq, -⟩ | hstep
  · exact absurd heq hne
  · obtain ⟨hretired, hiff⟩ := ending_cases hstep
    rw [hretired, ← hlast]
    exact Nat.lt_of_not_le fun hle => hne (hiff.2 hle)

/-! ## Two limits -/

def limited (r : Run) (limit : Nat) : Run := { r with limit }

theorem step_limited (limit : Nat) (h : r.retired < r.limit) (h' : r.retired < limit) :
    Matching (fun r r' => r' = r.limited limit) (fun _ => False) (step r)
      (step (r.limited limit)) := by
  have hlimited : ¬ (r.limited limit).limit ≤ (r.limited limit).retired := Nat.not_le.2 h'
  rw [step_apply, step_apply, if_neg (Nat.not_le.2 h), if_neg hlimited]
  have hmachine : (r.limited limit).machine = r.machine := rfl
  rw [hmachine]
  cases Machine.step r.machine with
  | ok op m => exact .ok rfl
  | error t m =>
    cases t with
    | halt => exact .ok rfl
    | inputExhausted => exact .ok rfl
    | fault f => exact .error rfl

theorem finishWithin_limited (h : r.retired + n ≤ r.limit) (h' : r.retired + n ≤ limit) :
    finishWithin n (r.limited limit) =
      (finishWithin n r).map fun e => (e.1, e.2.limited limit) := by
  induction n generalizing r with
  | zero => rfl
  | succ n ih =>
    have hstep := step_limited (r := r) limit (by omega) (by omega)
    rw [finishWithin, finishWithin]
    generalize hx : step r = x at hstep ⊢
    generalize step (r.limited limit) = x' at hstep ⊢
    cases hstep with
    | excused he => exact he.elim
    | error _ => rfl
    | @ok result mid _ ht =>
      subst ht
      cases result with
      | some ending => rfl
      | none =>
        obtain ⟨hretired, hlimit⟩ := going_step hx
        exact ih (by omega) (by omega)

/-- Goes on with a run that was cut off; one that ended otherwise stays as it is. -/
def resume (n : Nat) (e : Termination × Run) : Except ExecutionError (Termination × Run) :=
  if e.1 = .limitReached then finishWithin n e.2 else .ok e

theorem finishWithin_add (n k : Nat) (r : Run) :
    finishWithin (n + k) r = finishWithin n r >>= resume k := by
  induction n generalizing r with
  | zero =>
    rw [Nat.zero_add]
    rfl
  | succ n ih =>
    rw [Nat.succ_add, finishWithin, finishWithin]
    cases hstep : step r with
    | error e _ => rfl
    | ok result mid =>
      cases result with
      | none => exact ih mid
      | some ending =>
        show .ok (ending, mid) = resume k (ending, mid)
        by_cases hend : ending = .limitReached
        · -- The limit was reached before the interruption, and stays reached.
          obtain ⟨hretired, hiff⟩ := ending_cases hstep
          have hlimit := limit_next r
          rw [next_of_step hstep] at hlimit
          have hle : mid.limit ≤ mid.retired := by
            rw [hlimit, hretired]
            exact hiff.1 hend
          subst hend
          rw [resume, if_pos rfl]
          cases k with
          | zero => rfl
          | succ k => simp only [finishWithin, step_at_limit hle]
        · rw [resume, if_neg hend]

/-- Under a higher limit a run goes on from where the lower one cut it off, and is the same
run otherwise. -/
theorem finish_limited (hr : r.retired ≤ r.limit) (h : r.limit ≤ limit) :
    (r.limited limit).finish =
      r.finish >>= fun e => resume (limit - r.limit) (e.1, e.2.limited limit) := by
  have hsplit : limit - r.retired = (r.limit - r.retired) + (limit - r.limit) := by omega
  calc (r.limited limit).finish
      = finishWithin (limit - r.retired) (r.limited limit) := rfl
    _ = finishWithin (r.limit - r.retired) (r.limited limit) >>= resume (limit - r.limit) := by
        rw [hsplit, finishWithin_add]
    _ = (finishWithin (r.limit - r.retired) r).map (fun e => (e.1, e.2.limited limit)) >>=
          resume (limit - r.limit) := by
        rw [finishWithin_limited (by omega) (by omega)]
    _ = r.finish >>= fun e => resume (limit - r.limit) (e.1, e.2.limited limit) := by
        rw [finish]
        cases finishWithin (r.limit - r.retired) r with
        | error e => rfl
        | ok e => rfl

theorem start_limited {program : Program} {input : List Char} {config : Machine.Config}
    (h : start program input { config with instructionLimit := limit } = .ok r) (higher : Nat) :
    r.retired = 0 ∧ r.limit = limit ∧
      start program input { config with instructionLimit := higher } =
        .ok (r.limited higher) := by
  obtain ⟨m, hm, -, rfl⟩ := start_cases h
  exact ⟨rfl, rfl, except_bind_eq_ok_iff.2 ⟨m, hm, rfl⟩⟩

end Run

/-! ## Reports -/

section

variable {program : Program} {input : List Char} {config : Machine.Config} {limit : Nat}

theorem simulate_fault_of_le {e : ExecutionError} {higher : Nat} (hle : limit ≤ higher)
    (h : simulate program input { config with instructionLimit := limit } =
      .error (.execution e)) :
    simulate program input { config with instructionLimit := higher } =
      .error (.execution e) := by
  obtain ⟨r, hstart, hfinish⟩ := simulate_eq_execution_iff.1 h
  obtain ⟨hretired, hlimit, hhigher⟩ := Run.start_limited hstart higher
  refine simulate_eq_execution_iff.2 ⟨_, hhigher, ?_⟩
  rw [Run.finish_limited (by omega) (by omega), hfinish]
  rfl

theorem simulate_end_of_le {report : Report} {higher : Nat} (hle : limit ≤ higher)
    (h : simulate program input { config with instructionLimit := limit } = .ok report)
    (hne : report.termination ≠ .limitReached) :
    report.instructions < limit ∧
      simulate program input { config with instructionLimit := higher } = .ok report := by
  obtain ⟨r, ending, last, hstart, hfinish, rfl⟩ := simulate_eq_ok_iff.1 h
  obtain ⟨hretired, hlimit, hhigher⟩ := Run.start_limited hstart higher
  refine ⟨hlimit ▸ Run.retired_lt_limit hfinish hne, ?_⟩
  refine simulate_eq_ok_iff.2 ⟨_, ending, last.limited higher, hhigher, ?_, rfl⟩
  rw [Run.finish_limited (by omega) (by omega), hfinish]
  exact if_neg hne

theorem simulate_cut_of_le {report report' : Report} {higher : Nat} (hle : limit ≤ higher)
    (h : simulate program input { config with instructionLimit := limit } = .ok report)
    (hcut : report.termination = .limitReached)
    (h' : simulate program input { config with instructionLimit := higher } = .ok report') :
    report.Precedes report' := by
  obtain ⟨r, ending, last, hstart, hfinish, rfl⟩ := simulate_eq_ok_iff.1 h
  obtain ⟨r₁, ending', last', hstart', hfinish', rfl⟩ := simulate_eq_ok_iff.1 h'
  obtain ⟨hretired, hlimit, hhigher⟩ := Run.start_limited hstart higher
  obtain rfl := Except.ok.inj (hhigher.symm.trans hstart')
  obtain rfl : ending = .limitReached := hcut
  rw [Run.finish_limited (by omega) (by omega), hfinish] at hfinish'
  change Run.finishWithin (higher - r.limit) (last.limited higher) = _ at hfinish'
  have hgrows : (last.limited higher).Grows last' := .finishWithin hfinish'
  exact hgrows.report .limitReached ending'

/-- A run takes one step more than its limit at most.  If it ends before the limit, by itself
or by a fault, then it ends in the same way under every higher limit.  If the limit cuts it
off, it has retired that many instructions, and what it reports is contained in the report
under every higher limit. -/
theorem limit_only_truncates (program : Program) (input : List Char) (config : Machine.Config)
    (limit : Nat) :
    (∀ r, Run.start program input { config with instructionLimit := limit } = .ok r →
      r.loop (limit + 1) = some r.finish) ∧
    (∀ report, simulate program input { config with instructionLimit := limit } = .ok report →
      report.termination.isNormal = true →
      report.instructions < limit ∧ ∀ higher, limit ≤ higher →
        simulate program input { config with instructionLimit := higher } = .ok report) ∧
    (∀ e, simulate program input { config with instructionLimit := limit } =
        .error (.execution e) →
      ∀ higher, limit ≤ higher →
        simulate program input { config with instructionLimit := higher } =
          .error (.execution e)) ∧
    ∀ report, simulate program input { config with instructionLimit := limit } = .ok report →
      report.termination = .limitReached →
      report.instructions = limit ∧ ∀ higher, limit ≤ higher → ∀ report',
        simulate program input { config with instructionLimit := higher } = .ok report' →
        report.Precedes report' := by
  refine ⟨?_, ?_, ?_, ?_⟩
  · intro r hstart
    obtain ⟨hretired, hlimit, -⟩ := Run.start_limited hstart limit
    rw [Run.loop_eq (by omega), Run.finish, hretired, hlimit, Nat.sub_zero]
  · intro report hreport hnormal
    have hne : report.termination ≠ .limitReached := by
      intro heq
      rw [heq] at hnormal
      cases hnormal
    exact ⟨(simulate_end_of_le (Nat.le_refl _) hreport hne).1,
      fun higher hle => (simulate_end_of_le hle hreport hne).2⟩
  · intro e he higher hle
    exact simulate_fault_of_le hle he
  · intro report hreport hcut
    refine ⟨?_, fun higher hle report' => simulate_cut_of_le hle hreport hcut⟩
    obtain ⟨r, ending, last, hstart, hfinish, rfl⟩ := simulate_eq_ok_iff.1 hreport
    obtain ⟨hretired, hlimit, -⟩ := Run.start_limited hstart limit
    obtain rfl : ending = .limitReached := hcut
    exact (Run.retired_of_limitReached (by omega) hfinish).trans hlimit

end

/-- Writes a character and halts. -/
def writeAndHalt : Program where
  instructions :=
    [{ opcode := .push, argument := some (.char 'a') },
     { opcode := .push, argument := some (.number (.wrap 1)) },
     { opcode := .writeDirect }, { opcode := .halt }]

/-- A `HALT` that stands just at the limit is not seen.  One instruction more, and it ends
the run, under that limit and under every higher one. -/
theorem limit_only_truncates_halt_at_limit :
    ∃ report report', simulate writeAndHalt [] ⟨133, 3, 3⟩ = .ok report ∧
      report.termination = .limitReached ∧ report.instructions = 3 ∧
      report.Precedes report' ∧ report'.termination = .halted ∧ report'.instructions < 4 ∧
      ∀ higher, 4 ≤ higher → simulate writeAndHalt [] ⟨133, 3, higher⟩ = .ok report' := by
  obtain ⟨report, hreport, hcut⟩ := exists_of_toOption_map (b := .limitReached)
    (x := simulate writeAndHalt [] ⟨133, 3, 3⟩) (f := Report.termination) (by decide +kernel)
  obtain ⟨report', hreport', hhalted⟩ := exists_of_toOption_map (b := .halted)
    (x := simulate writeAndHalt [] ⟨133, 3, 4⟩) (f := Report.termination) (by decide +kernel)
  obtain ⟨-, -, -, hlow⟩ := limit_only_truncates writeAndHalt [] ⟨133, 3, 0⟩ 3
  obtain ⟨-, hnormal, -, -⟩ := limit_only_truncates writeAndHalt [] ⟨133, 3, 0⟩ 4
  obtain ⟨hinstructions, hhigher⟩ := hlow report hreport hcut
  obtain ⟨hlt, hsame⟩ := hnormal report' hreport' (by rw [hhalted]; rfl)
  exact ⟨report, report', hreport, hcut, hinstructions, hhigher 4 (by decide) report' hreport',
    hhalted, hlt, hsame⟩

end Microstack
