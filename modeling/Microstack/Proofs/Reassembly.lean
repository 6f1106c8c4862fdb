/-
# `Microstack.Proofs.Reassembly` — which programs their listings are assembled into

The draft of a listing has an open label for every jump (`Listing.read_text`), and its
table has the labels of the targets up to the end of the program.  So what becomes of
the listing is decided when the labels are resolved:

    all targets up to the end     the program comes back, its contexts trimmed
    some target beyond the end    its label is undefined, and nothing is assembled

For an assembled program this is the whole story (`assembled_listing_iff`): a jump to
a number beyond its own end is the one thing that its listing does not keep.  For any
other program the arguments have to be those that the operations take as well
(`listing_round_trip_iff`).
-/
import Microstack.Proofs.Listing

namespace Microstack

namespace Listing

open Assembly (Pending Draft)

variable {p : Program} {i : Instruction}

/-! ## Labels resolved -/

theorem wrap_toNat {n : Word} (h : 0 ≤ n.toInt) : Word.wrap n.toInt.toNat = n := by
  have hmax := n.le_max
  refine Word.ext ?_
  rw [Int.toNat_of_nonneg h]
  exact Word.toInt_wrap (by omega) hmax

theorem argument_of_jumpTarget? {pc : Nat} (h : jumpTarget? i = some pc) :
    i.argument = some (.number (Word.wrap pc)) := by
  obtain ⟨-, n, hn, hnonneg, rfl⟩ := jumpTarget?_eq_some_iff.1 h
  rw [wrap_toNat hnonneg, hn]

theorem core_withArgument {j : Instruction} {arg : Argument}
    (h : j.core = { i.listed with argument := none }) (harg : i.argument = some arg) :
    ({ j with argument := some arg } : Instruction).core = i.listed := by
  simp only [Instruction.core, Instruction.listed, Instruction.withContext, Instruction.mk.injEq]
    at h ⊢
  exact ⟨h.1, harg.symm, h.2.2⟩

theorem resolve_of_gist {x : Pending} {t : SymbolTable} {marked : Nat → Prop}
    (ht : Marks t marked) (hx : pendingGist x = gist i) :
    match Draft.resolve t x with
    | .ok j => j.core = i.listed ∧ ∀ pc, jumpTarget? i = some pc → marked pc
    | .error e => ∃ pc, jumpTarget? i = some pc ∧ ¬ marked pc ∧
        e = .undefinedLabel x.line (label pc) := by
  rw [pendingGist, gist] at hx
  rw [Draft.resolve]
  cases htarget : jumpTarget? i with
  | none =>
    simp only [htarget, Prod.mk.injEq] at hx
    obtain ⟨hcore, hlabel⟩ := hx
    simp only [hlabel]
    refine ⟨hcore, fun pc hpc => ?_⟩
    cases hpc
  | some pc =>
    simp only [htarget, Prod.mk.injEq] at hx
    obtain ⟨hcore, hlabel⟩ := hx
    simp only [hlabel]
    by_cases hpc : marked pc
    · rw [(ht.address _ pc).2 ⟨rfl, hpc⟩]
      refine ⟨?_, ?_⟩
      · exact core_withArgument hcore (argument_of_jumpTarget? htarget)
      · rintro _ ⟨⟩
        exact hpc
    · rw [ht.address?_of_not_marked hpc]
      exact ⟨pc, rfl, hpc, rfl⟩

/-- What becomes of all instructions.  The first label that is undefined decides the
error. -/
theorem mapM_resolve_of_gist {xs : List Pending} {is : List Instruction} {t : SymbolTable}
    {marked : Nat → Prop} (ht : Marks t marked) (hxs : xs.map pendingGist = is.map gist) :
    match xs.mapM (Draft.resolve t) with
    | .ok js => js.map Instruction.core = is.map Instruction.listed ∧
        ∀ pc ∈ is.filterMap jumpTarget?, marked pc
    | .error e => ∃ line, ∃ pc ∈ is.filterMap jumpTarget?, ¬ marked pc ∧
        e = .undefinedLabel line (label pc) := by
  induction is generalizing xs with
  | nil =>
    obtain rfl := List.map_eq_nil_iff.1 hxs
    exact ⟨rfl, nofun⟩
  | cons i is ih =>
    obtain ⟨x, xs, rfl, hx, hxs⟩ := List.map_eq_cons_iff.1 hxs
    have hfirst := resolve_of_gist ht hx
    have hrest := ih hxs
    rw [List.mapM_cons]
    cases hresolve : Draft.resolve t x with
    | error e =>
      rw [hresolve] at hfirst
      obtain ⟨pc, htarget, hpc, rfl⟩ := hfirst
      exact ⟨x.line, pc, List.mem_filterMap.2 ⟨i, by simp, htarget⟩, hpc, rfl⟩
    | ok j =>
      rw [hresolve] at hfirst
      obtain ⟨hcore, hmarked⟩ := hfirst
      cases hmapM : xs.mapM (Draft.resolve t) with
      | error e =>
        rw [hmapM] at hrest
        obtain ⟨line, pc, htarget, hpc, rfl⟩ := hrest
        refine ⟨line, pc, ?_, hpc, rfl⟩
        obtain ⟨k, hk, hkpc⟩ := List.mem_filterMap.1 htarget
        exact List.mem_filterMap.2 ⟨k, by simp [hk], hkpc⟩
      | ok js =>
        rw [hmapM] at hrest
        obtain ⟨hcores, hmarkeds⟩ := hrest
        refine ⟨?_, ?_⟩
        · show j.core :: js.map Instruction.core = i.listed :: is.map Instruction.listed
          rw [hcore, hcores]
        · intro pc hpc
          obtain ⟨k, hk, hkpc⟩ := List.mem_filterMap.1 hpc
          rcases List.mem_cons.1 hk with rfl | hk
          · exact hmarked pc hkpc
          · exact hmarkeds pc (List.mem_filterMap.2 ⟨k, hk, hkpc⟩)

theorem assemble_text (hargument : ∀ i ∈ p.instructions, i.argument.isSome = i.opcode.takesArgument)
    (hfeed : ∀ i ∈ p.instructions, '\n' ∉ i.context.toList) :
    match Assembly.assemble (text p).toList with
    | .ok q => q.data = p.data ∧
        q.instructions.map Instruction.core = p.instructions.map Instruction.listed ∧
        ∀ pc ∈ targets p, pc ≤ p.length
    | .error e => ∃ line, ∃ pc ∈ targets p, p.length < pc ∧
        e = .undefinedLabel line (label pc) := by
  obtain ⟨d, hread, hdata, hpending, hsymbols⟩ := read_text hargument hfeed
  have hresolve := mapM_resolve_of_gist hsymbols hpending
  rw [Assembly.assemble, hread]
  show match Draft.program d with
    | .ok q => _
    | .error e => _
  rw [Draft.program]
  cases hmapM : d.pending.toList.mapM (Draft.resolve d.symbols) with
  | ok js =>
    rw [hmapM] at hresolve
    obtain ⟨hcores, hmarked⟩ := hresolve
    refine ⟨hdata, hcores, ?_⟩
    intro pc hpc
    have := (hmarked pc hpc).2
    omega
  | error e =>
    rw [hmapM] at hresolve
    obtain ⟨line, pc, hpc, hunmarked, rfl⟩ := hresolve
    refine ⟨line, pc, hpc, ?_, rfl⟩
    have hbound : ¬ pc < p.length + 1 := fun hlt => hunmarked ⟨hpc, hlt⟩
    omega

/-! ## What comes back -/

theorem skeleton_of_core {q : Program}
    (h : q.instructions.map Instruction.core = p.instructions.map Instruction.listed) :
    q.skeleton = p.skeleton := by
  have hfields := congrArg (List.map fun i => (i.opcode, i.argument)) h
  rw [List.map_map, List.map_map] at hfields
  exact hfields

/-- The line of an instruction depends on its context, and on no more of its term. -/
theorem instructionLine_core (t : SymbolTable) (i : Instruction) :
    instructionLine t i.core = instructionLine t i := by
  obtain ⟨opcode, argument, term⟩ := i
  cases term with
  | none => rfl
  | some term => rfl

theorem text_core (p : Program) :
    text { p with instructions := p.instructions.map Instruction.core } = text p := by
  have htable : symbols { p with instructions := p.instructions.map Instruction.core } =
      symbols p := by
    rw [symbols, symbols, List.filterMap_map]
    rfl
  have hlength : Program.length { p with instructions := p.instructions.map Instruction.core } =
      p.length := List.length_map ..
  rw [text, text, lines, lines, htable, hlength]
  simp only [List.zipIdx_map, List.flatMap_map, Prod.map_fst, Prod.map_snd, id_eq,
    instructionLine_core]
  rfl

theorem text_congr {q : Program} (hdata : q.data = p.data)
    (hcore : q.instructions.map Instruction.core = p.instructions.map Instruction.core) :
    text q = text p := by
  rw [← text_core q, ← text_core p, hdata, hcore]

def ComesBack (p : Program) : Prop :=
  ∃ q, Assembly.assemble (text p).toList = .ok q ∧ q.data = p.data ∧ q.skeleton = p.skeleton

theorem comesBack_iff_targets
    (hargument : ∀ i ∈ p.instructions, i.argument.isSome = i.opcode.takesArgument)
    (hfeed : ∀ i ∈ p.instructions, '\n' ∉ i.context.toList) :
    ComesBack p ↔ ∀ pc ∈ targets p, pc ≤ p.length := by
  have hassemble := assemble_text hargument hfeed
  constructor
  · rintro ⟨q, hq, -⟩
    rw [hq] at hassemble
    exact hassemble.2.2
  · intro htargets
    cases hq : Assembly.assemble (text p).toList with
    | ok q =>
      rw [hq] at hassemble
      obtain ⟨hdata, hcore, -⟩ := hassemble
      exact ⟨q, hq, hdata, skeleton_of_core hcore⟩
    | error e =>
      rw [hq] at hassemble
      obtain ⟨_, pc, hpc, hbeyond, -⟩ := hassemble
      have := htargets pc hpc
      omega

theorem argument_of_skeleton {q : Program} (h : q.skeleton = p.skeleton)
    (hq : ∀ j ∈ q.instructions, j.argument.isSome = j.opcode.takesArgument) :
    ∀ i ∈ p.instructions, i.argument.isSome = i.opcode.takesArgument := by
  intro i hi
  have hmem : (i.opcode, i.argument) ∈ q.skeleton := by
    rw [h]
    exact List.mem_map.2 ⟨i, hi, rfl⟩
  obtain ⟨j, hj, heq⟩ := List.mem_map.1 hmem
  obtain ⟨hopcode, hargument⟩ := Prod.mk.inj heq
  rw [← hopcode, ← hargument]
  exact hq j hj

theorem targets_le_iff {bound : Nat} :
    (∀ pc ∈ targets p, pc ≤ bound) ↔
      ∀ i ∈ p.instructions, i.opcode.isJump = true → ∀ n : Word,
        i.argument = some (.number n) → 0 ≤ n.toInt → n.toInt ≤ bound := by
  constructor
  · intro h i hi hjump n hn hnonneg
    have htarget : jumpTarget? i = some n.toInt.toNat :=
      jumpTarget?_eq_some_iff.2 ⟨hjump, n, hn, hnonneg, rfl⟩
    have := h _ (mem_targets.2 ⟨i, hi, htarget⟩)
    omega
  · intro h pc hpc
    obtain ⟨i, hi, htarget⟩ := mem_targets.1 hpc
    obtain ⟨hjump, n, hn, hnonneg, rfl⟩ := jumpTarget?_eq_some_iff.1 htarget
    have := h i hi hjump n hn hnonneg
    omega

theorem comesBack_iff_listable (hfeed : ∀ i ∈ p.instructions, '\n' ∉ i.context.toList) :
    ComesBack p ↔ p.Listable := by
  constructor
  · intro h
    -- What was assembled has the right arguments, and here it has the same as `p`.
    have hargument : ∀ i ∈ p.instructions, i.argument.isSome = i.opcode.takesArgument := by
      obtain ⟨q, hq, -, hskeleton⟩ := h
      refine argument_of_skeleton hskeleton ?_
      intro j hj
      exact (Assembly.assembled_of_assemble hq j hj).argument
    exact ⟨hargument, targets_le_iff.1 ((comesBack_iff_targets hargument hfeed).1 h)⟩
  · rintro ⟨hargument, htarget⟩
    exact (comesBack_iff_targets hargument hfeed).2 (targets_le_iff.2 htarget)

theorem contexts_of_core {q : Program} (hterm : ∀ j ∈ q.instructions, j.term.isSome = true)
    (hcore : q.instructions.map Instruction.core = p.instructions.map Instruction.core) :
    q.instructions.map (fun j => j.term.map Term.context) =
      p.instructions.map fun i => some i.context := by
  have hcontext := congrArg (List.map fun i => some i.context) hcore
  rw [List.map_map, List.map_map] at hcontext
  refine Eq.trans (List.map_congr_left ?_) hcontext
  intro j hj
  obtain ⟨term, hj⟩ := Option.isSome_iff_exists.1 (hterm j hj)
  simp [Instruction.context, Instruction.core, Instruction.withContext, hj]

/-- If no context has white space around it, the listing of what was assembled is the
same text again. -/
theorem assemble_text_of_trimmed (hp : p.Listable)
    (hfeed : ∀ i ∈ p.instructions, '\n' ∉ i.context.toList)
    (htrim : ∀ i ∈ p.instructions, Text.trim i.context.toList = i.context.toList) :
    ∃ q, Assembly.assemble (text p).toList = .ok q ∧ q.data = p.data ∧
      q.skeleton = p.skeleton ∧
      q.instructions.map (fun j => j.term.map Term.context) =
        p.instructions.map (fun i => some i.context) ∧
      text q = text p := by
  obtain ⟨q, hq, hdata, hskeleton⟩ := (comesBack_iff_listable hfeed).2 hp
  have hassemble := assemble_text hp.argument hfeed
  rw [hq] at hassemble
  obtain ⟨-, hlisted, -⟩ := hassemble
  have hcore : q.instructions.map Instruction.core = p.instructions.map Instruction.core := by
    rw [hlisted]
    exact List.map_congr_left fun i hi => Instruction.listed_eq_core (htrim i hi)
  have hterm : ∀ j ∈ q.instructions, j.term.isSome = true :=
    fun j hj => (Assembly.assembled_of_assemble hq j hj).term
  exact ⟨q, hq, hdata, hskeleton, contexts_of_core hterm hcore, text_congr hdata hcore⟩

end Listing

/-! ## Round trips -/

open Listing

/-- An assembled program comes back from its listing exactly if no jump goes beyond the
end of the program.  Otherwise the label of such a target is undefined. -/
theorem assembled_listing_iff {source : List Char} {p : Program}
    (h : Assembly.assemble source = .ok p) :
    (ComesBack p ↔ ∀ pc ∈ targets p, pc ≤ p.length) ∧
      ∀ e, Assembly.assemble (text p).toList = .error e →
        ∃ line, ∃ pc ∈ targets p, p.length < pc ∧ e = .undefinedLabel line (label pc) := by
  have hassembled := Assembly.assembled_of_assemble h
  have hargument : ∀ i ∈ p.instructions, i.argument.isSome = i.opcode.takesArgument :=
    fun i hi => (hassembled i hi).argument
  have hfeed : ∀ i ∈ p.instructions, '\n' ∉ i.context.toList :=
    fun i hi => (hassembled i hi).context
  refine ⟨comesBack_iff_targets hargument hfeed, ?_⟩
  intro e he
  have hassemble := assemble_text hargument hfeed
  rwa [he] at hassemble

/-- Two jumps to the end, which are written as a label and as a number. -/
def leavingProgram : Program where
  instructions :=
    [{ opcode := .jnt, argument := some (.number ⟨2, by decide, by decide⟩),
       term := some ⟨1, "leave", "JNT end"⟩ },
     { opcode := .jmp, argument := some (.number ⟨2, by decide, by decide⟩),
       term := some ⟨2, "", "jmp 2"⟩ }]

theorem assembled_listing_iff_leaving :
    Assembly.assemble "  JNT end # leave\n  jmp 2\nend:".toList = .ok leavingProgram ∧
      ComesBack leavingProgram := by
  have hsource :
      Assembly.assemble "  JNT end # leave\n  jmp 2\nend:".toList = .ok leavingProgram := by
    obtain ⟨_, hsource, rfl⟩ := exists_of_toOption_map (f := fun p => p) (b := leavingProgram)
      (x := Assembly.assemble "  JNT end # leave\n  jmp 2\nend:".toList) (by decide +kernel)
    exact hsource
  have htargets : ∀ pc ∈ targets leavingProgram, pc ≤ leavingProgram.length := by decide
  exact ⟨hsource, (assembled_listing_iff hsource).1.2 htargets⟩

/-- Not every assembled program comes back: nothing defines the label of a target
beyond the end. -/
theorem listing_loses_jump_beyond_end :
    ¬ ∀ (source : List Char) (p : Program), Assembly.assemble source = .ok p → ComesBack p := by
  intro h
  obtain ⟨q, hq, -⟩ := h "JMP 5".toList _ rfl
  have herror : Assembly.assemble "    JMP L5\n".toList = .error (.undefinedLabel 1 "L5") := rfl
  cases herror.symm.trans hq

/-- Any program comes back from its listing exactly if it is `Listable`.  If its contexts
have no white space around them they come back too, and the listing does not change
any more. -/
theorem listing_round_trip_iff (p : Program)
    (hfeed : ∀ i ∈ p.instructions, '\n' ∉ i.context.toList) :
    (ComesBack p ↔ p.Listable) ∧
      (p.Listable →
        (∀ i ∈ p.instructions, Text.trim i.context.toList = i.context.toList) →
        ∃ q, Assembly.assemble (text p).toList = .ok q ∧ q.data = p.data ∧
          q.skeleton = p.skeleton ∧
          q.instructions.map (fun j => j.term.map Term.context) =
            p.instructions.map (fun i => some i.context) ∧
          text q = text p) := by
  refine ⟨comesBack_iff_listable hfeed, ?_⟩
  intro hp htrim
  exact assemble_text_of_trimmed hp hfeed htrim

/-- A carriage return as an argument, a comment sign in a context, an instruction without
a term, a jump to the end and a jump that goes nowhere. -/
def mixedProgram : Program where
  data := some []
  instructions :=
    [{ opcode := .push, argument := some (.char '\r'), term := some ⟨7, "a # b", "x"⟩ },
     { opcode := .jnt, argument := some (.number ⟨3, by decide, by decide⟩) },
     { opcode := .jmp, argument := some (.number .yes),
       term := some ⟨0, "", ""⟩ }]

theorem listing_round_trip_iff_mixed :
    mixedProgram.Listable ∧ ComesBack mixedProgram ∧
      ∃ q, Assembly.assemble (text mixedProgram).toList = .ok q ∧ q.data = some [] ∧
        q.skeleton = mixedProgram.skeleton ∧
        q.instructions.map (fun j => j.term.map Term.context) =
          [some "a # b", some "", some ""] ∧
        text q = text mixedProgram := by
  have hfeed : ∀ i ∈ mixedProgram.instructions, '\n' ∉ i.context.toList := by decide
  have htrim : ∀ i ∈ mixedProgram.instructions,
      Text.trim i.context.toList = i.context.toList := by decide
  have hp : mixedProgram.Listable := by
    refine ⟨by decide, ?_⟩
    simp [mixedProgram, Opcode.isJump, Program.length, Word.yes]
  have hround := listing_round_trip_iff mixedProgram hfeed
  exact ⟨hp, hround.1.2 hp, hround.2 hp htrim⟩

end Microstack
