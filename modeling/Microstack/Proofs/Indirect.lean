/-
# `Microstack.Proofs.Indirect` — the two opcodes that go through a pointer

A pointer is a data word that holds an address, and using it moves it on by one:

    READ_NDR     .. p     →   .. v       v at q = MEM[p],   then MEM[p] := q + 1
    WRITE_NDR    .. x p   →   ..         x to q = MEM[p],   then MEM[p] := q + 1

`q` may be a port or `p` itself, `p` may only be a data address.  While the
instruction is going on its words are on the stack beside those of the program, so
it needs room although it leaves no more words than it found.

The microcode of each opcode is cut in two, behind the point where `q` is known and
behind the point where the word has been moved.  What comes after a cut is said for
every machine, so that the cases before it are not gone through again.
-/
import Microstack.Proofs.Effect

namespace Microstack

/-- The effects of the opcodes that address memory through a pointer. -/
inductive IndirectEffect (v : View) : Opcode → View → Prop
  | readData {w : List Word} {p q r : Word} : v.words = w ++ [p] →
      2 ≤ p.toInt → p.toInt < v.start → v.data p.toInt = q →
      2 ≤ q.toInt → q.toInt < v.start →
      r.toInt = q.toInt + 1 → w.length + 3 < v.capacity →
      IndirectEffect v .readIndirect ((v.store p.toInt r).next (w ++ [v.data q.toInt]))
  | readInput {w : List Word} {p q r : Word} {c : Char} {rest : List Char} :
      v.words = w ++ [p] →
      2 ≤ p.toInt → p.toInt < v.start → v.data p.toInt = q →
      q.toInt = 0 → v.input = c :: rest →
      r.toInt = q.toInt + 1 → w.length + 3 < v.capacity →
      IndirectEffect v .readIndirect
        (((v.consume rest).store p.toInt r).next (w ++ [Word.ofChar c]))
  | writeData {w : List Word} {x p q r : Word} : v.words = w ++ [x, p] →
      2 ≤ p.toInt → p.toInt < v.start → v.data p.toInt = q →
      2 ≤ q.toInt → q.toInt < v.start →
      r.toInt = q.toInt + 1 → w.length + 3 < v.capacity →
      IndirectEffect v .writeIndirect (((v.store q.toInt x).store p.toInt r).next w)
  | writeOutput {w : List Word} {x p q r : Word} : v.words = w ++ [x, p] →
      2 ≤ p.toInt → p.toInt < v.start → v.data p.toInt = q →
      q.toInt = 1 →
      r.toInt = q.toInt + 1 → w.length + 3 < v.capacity →
      IndirectEffect v .writeIndirect (((v.emit x).store p.toInt r).next w)

namespace Microcode

variable {m : Machine} {mem : Memory} {d : Datapath} {ticks n : Nat} {text : List Instruction}
  {v : View} {f : Unit → Microcode Unit}

theorem retires_latchWord {offset : Nat} {a : Word} (htop : d.top offset = .ok a) :
    Retires (latchAddress offset >>= f) (m.holding mem d ticks) v ↔
      0 ≤ a.toInt ∧ a.toInt ≤ mem.size ∧
        Retires (f ()) (m.holding (mem.addressed a.toInt.toNat) d ticks) v := by
  rw [retires_latchAddress, htop]
  simp only [Except.ok.injEq, exists_eq_left']

theorem retires_topWord {f : Word → Microcode Unit} {offset : Nat} {a : Word}
    (htop : d.top offset = .ok a) :
    Retires (top offset >>= f) (m.holding mem d ticks) v ↔
      Retires (f a) (m.holding mem d ticks) v := by
  rw [top, retires_inspect]
  show (∃ a, d.top offset = .ok a ∧ _) ↔ _
  rw [htop]
  simp only [Except.ok.injEq, exists_eq_left']

theorem retires_writeBack (hm : mem.Loaded n text) (h : d.Fits)
    (hcap : d.capacity = m.datapath.capacity) {w xs : List Word} (hw : d.words = w ++ xs)
    (hk : 1 ≤ xs.length ∧ xs.length ≤ 3) {p r : Word} (hp : p.toInt ≠ 1) :
    (0 ≤ p.toInt ∧ p.toInt ≤ mem.size ∧
        Retires
          (Microcode.write r >>= fun _ => adjustHead (-xs.length) >>= fun _ => finishWith [])
          (m.holding (mem.addressed p.toInt.toNat) d ticks) v) ↔
      2 ≤ p.toInt ∧ p.toInt < mem.programStart ∧
        v = ((m.holding mem m.datapath m.ticks).view.store p.toInt r).next w := by
  have hstart := hm.start_le
  have hlt := h.length_lt hw
  rw [List.length_append, hcap] at hlt
  have hrest (mem : Memory) :
      Retires (adjustHead (-xs.length) >>= fun _ => finishWith []) (m.holding mem d ticks) v ↔
        v = (m.holding mem m.datapath m.ticks).view.next w := by
    rw [retires_drop h hw hk, retires_finish (h.popped _) hcap (h.words_popped hw),
      List.append_nil]
    exact and_iff_right (Nat.lt_of_le_of_lt (Nat.add_le_add_left (Nat.zero_le _) _) hlt)
  rw [retires_store hm, or_iff_right fun h => hp h.1]
  refine and_congr_right fun hport => and_congr_right fun hlt => ?_
  rw [hrest, Machine.view_stored _ _ _ _ (by omega) (by show _ < mem.size; omega),
    Int.toNat_of_nonneg (by omega)]
  exact Iff.rfl

theorem fits_pushThree (h : d.Fits) {w : List Word} (hw : d.words = w)
    (hroom : w.length + 3 < d.capacity) (a b c : Word) :
    (((d.pushed a).pushed b).pushed c).Fits ∧
      (((d.pushed a).pushed b).pushed c).words = w ++ [a, b, c] := by
  have ha := h.words_pushed a
  have hfits := h.pushed a (by rw [hw]; omega)
  have hb := hfits.words_pushed b
  have hfits' := hfits.pushed b (by simp [ha, hw]; omega)
  have hc := hfits'.words_pushed c
  refine ⟨hfits'.pushed c (by simp [hb, ha, hw]; omega), ?_⟩
  rw [hc, hb, ha, hw]
  simp

theorem retires_pushThree (h : d.Fits) {w : List Word} (hw : d.words = w) {a b c : Word} :
    Retires (push a >>= fun _ => push b >>= fun _ => push c >>= f) (m.holding mem d ticks) v ↔
      w.length + 3 < d.capacity ∧
        Retires (f ()) (m.holding mem (((d.pushed a).pushed b).pushed c) ticks) v := by
  have ha : (d.pushed a).words.length = w.length + 1 := by simp [h.words_pushed, hw]
  rw [retires_push h, hw]
  constructor
  · rintro ⟨hone, hr⟩
    have hfits := h.pushed a (by rw [hw]; exact hone)
    obtain ⟨htwo, hr⟩ := (retires_push hfits).1 hr
    have hfits' := hfits.pushed b htwo
    obtain ⟨hthree, hr⟩ := (retires_push hfits').1 hr
    simp only [hfits.words_pushed, List.length_append, ha, Datapath.capacity_pushed] at hthree
    exact ⟨hthree, hr⟩
  · rintro ⟨hroom, hr⟩
    have hfits := h.pushed a (by rw [hw]; omega)
    have htwo : (d.pushed a).words.length + 1 < (d.pushed a).capacity := by
      rw [ha, Datapath.capacity_pushed]
      omega
    have hfits' := hfits.pushed b htwo
    refine ⟨by omega, (retires_push hfits).2 ⟨htwo, (retires_push hfits').2 ⟨?_, hr⟩⟩⟩
    simp only [hfits.words_pushed, List.length_append, ha, Datapath.capacity_pushed]
    exact hroom

theorem retires_increment (h : d.Fits) {w : List Word} {q p : Word} (hw : d.words = w ++ [q, p]) :
    Retires (latchAlu .increment >>= f) (m.holding mem d ticks) v ↔
      ∃ r : Word, r.toInt = q.toInt + 1 ∧
        Retires (f ()) (m.holding mem (d.accumulated r) ticks) v := by
  simp only [retires_bind, latchAlu_eq_ok_iff (m := m.holding mem d ticks) h]
  constructor
  · rintro ⟨_, _, ⟨w', operands, r, hw', hv, rfl⟩, hr⟩
    have hlen := AluOp.length_of_value? hv
    obtain ⟨-, rfl⟩ := List.append_inj' (hw.symm.trans hw') hlen.symm
    exact ⟨r, Word.ofInt?_eq_some_iff.1 hv, hr⟩
  · rintro ⟨r, hq, hr⟩
    exact ⟨(), _, ⟨w, [q, p], r, hw, Word.ofInt?_eq_some_iff.2 hq, rfl⟩, hr⟩

/-! ## Reading through a pointer -/

/-- The end of a read, from `.. x q p` to `.. x`: the pointer goes up. -/
def readEnd : Microcode Unit :=
  latchAddress 0 >>= fun _ => tick >>= fun _ => latchAlu .increment >>= fun _ =>
    accumulator >>= fun next => Microcode.write next >>= fun _ => adjustHead (-2) >>= fun _ =>
    finishWith []

theorem retires_readEnd (hm : mem.Loaded n text) (h : d.Fits)
    (hcap : d.capacity = m.datapath.capacity) {w : List Word} {x q p : Word}
    (hw : d.words = w ++ [x, q, p]) (hp : p.toInt ≠ 1) :
    Retires readEnd (m.holding mem d ticks) v ↔
      2 ≤ p.toInt ∧ p.toInt < mem.programStart ∧ ∃ r : Word, r.toInt = q.toInt + 1 ∧
        v = ((m.holding mem m.datapath m.ticks).view.store p.toInt r).next (w ++ [x]) := by
  have hpair : d.words = (w ++ [x]) ++ [q, p] := by
    rw [hw, List.append_assoc]
    rfl
  rw [readEnd, retires_latchWord (h.top_zero_of_two hpair), retires_tick, retires_increment h hpair]
  simp only [retires_accumulator]
  constructor
  · rintro ⟨h0, hsize, r, hq, hr⟩
    obtain ⟨hport, hlt, hv⟩ :=
      (retires_writeBack hm (h.accumulated r) hcap hpair (by simp) hp).1 ⟨h0, hsize, hr⟩
    exact ⟨hport, hlt, r, hq, hv⟩
  · rintro ⟨hport, hlt, r, hq, hv⟩
    obtain ⟨h0, hsize, hr⟩ :=
      (retires_writeBack hm (h.accumulated r) hcap hpair (by simp) hp).2 ⟨hport, hlt, hv⟩
    exact ⟨h0, hsize, r, hq, hr⟩

/-- A read once the word is known, from `.. p q` to `.. x`. -/
def readBehind (x : Word) : Microcode Unit :=
  push x >>= fun _ => tick >>= fun _ => top 0 >>= fun x => top 1 >>= fun q => top 2 >>= fun p =>
    adjustHead (-3) >>= fun _ => push x >>= fun _ => push q >>= fun _ => push p >>= fun _ =>
    tick >>= fun _ => readEnd

theorem retires_readBehind (hm : mem.Loaded n text) (h : d.Fits)
    (hcap : d.capacity = m.datapath.capacity) {w : List Word} {p q x : Word}
    (hw : d.words = w ++ [p, q]) (hp : p.toInt ≠ 1) :
    Retires (readBehind x) (m.holding mem d ticks) v ↔
      w.length + 3 < m.datapath.capacity ∧ 2 ≤ p.toInt ∧ p.toInt < mem.programStart ∧
        ∃ r : Word, r.toInt = q.toInt + 1 ∧
          v = ((m.holding mem m.datapath m.ticks).view.store p.toInt r).next (w ++ [x]) := by
  have hlen : d.words.length = w.length + 2 := by
    rw [hw, List.length_append]
    rfl
  have hx : (d.pushed x).words = w ++ [p, q, x] := by
    rw [h.words_pushed, hw, List.append_assoc]
    rfl
  rw [readBehind, retires_push h, hlen, hcap]
  refine and_congr_right fun hroom => ?_
  have hfits := h.pushed x (by rw [hlen, hcap]; exact hroom)
  rw [retires_tick, retires_topWord (hfits.top_zero_eq_ok_iff.2 ⟨w ++ [p, q], by simpa using hx⟩),
    retires_topWord (hfits.top_one_eq_ok_iff.2 ⟨w ++ [p], x, by simpa using hx⟩),
    retires_topWord (hfits.top_two_eq_ok_iff.2 ⟨w, q, x, hx⟩), retires_dropThree hfits hx,
    retires_pushThree (hfits.popped 3) (hfits.words_popped hx), Datapath.capacity_popped,
    Datapath.capacity_pushed, hcap, and_iff_right hroom, retires_tick]
  obtain ⟨hfits', hwords⟩ := fits_pushThree (hfits.popped 3) (hfits.words_popped hx)
    (by simpa [hcap] using hroom) x q p
  exact retires_readEnd hm hfits' (by simp [hcap]) hwords hp

/-- A read once the pointer is known, from `.. p` to `.. x`. -/
def readThrough (q : Word) : Microcode Unit :=
  push q >>= fun _ => tick >>= fun _ => latchAddress 0 >>= fun _ => Microcode.read >>= readBehind

theorem retires_readThrough (hm : mem.Loaded n text) (h : d.Fits)
    (hcap : d.capacity = m.datapath.capacity) {w : List Word} {p q : Word}
    (hw : d.words = w ++ [p]) (hp : p.toInt ≠ 1) :
    Retires (readThrough q) (m.holding mem d ticks) v ↔
      w.length + 3 < m.datapath.capacity ∧ 2 ≤ p.toInt ∧ p.toInt < mem.programStart ∧
        ∃ r : Word, r.toInt = q.toInt + 1 ∧
          ((q.toInt = 0 ∧ ∃ c rest, mem.input = c :: rest ∧
              v = (((m.holding mem m.datapath m.ticks).view.consume rest).store p.toInt r).next
                (w ++ [Word.ofChar c])) ∨
            (2 ≤ q.toInt ∧ q.toInt < mem.programStart ∧
              v = ((m.holding mem m.datapath m.ticks).view.store p.toInt r).next
                (w ++ [(m.holding mem m.datapath m.ticks).view.data q.toInt]))) := by
  have hlen : d.words.length = w.length + 1 := by
    rw [hw, List.length_append]
    rfl
  have hq : (d.pushed q).words = w ++ [p, q] := by
    rw [h.words_pushed, hw, List.append_assoc]
    rfl
  rw [readThrough, retires_push h, hlen, hcap, retires_tick]
  constructor
  · rintro ⟨hroom, hr⟩
    have hfits := h.pushed q (by rw [hlen, hcap]; exact hroom)
    rw [retires_latchWord (hfits.top_zero_of_two hq), retires_load hm] at hr
    rcases hr with ⟨h0, c, rest, hin, hr⟩ | ⟨hport, hlt, hr⟩
    · have hmem := (hm.addressed (Nat.zero_le _)).consumed c rest
      rw [retires_readBehind hmem hfits (by simpa using hcap) hq hp, Machine.view_consumed] at hr
      obtain ⟨hroom, hport, hlt, r, hr, hv⟩ := hr
      exact ⟨hroom, hport, hlt, r, hr, .inl ⟨h0, c, rest, hin, hv⟩⟩
    · have hstart := hm.start_le
      have hmem := hm.addressed (a := q.toInt.toNat) (by omega)
      rw [retires_readBehind hmem hfits (by simpa using hcap) hq hp] at hr
      obtain ⟨hroom, hport', hlt', r, hr, hv⟩ := hr
      exact ⟨hroom, hport', hlt', r, hr, .inr ⟨hport, hlt, hv⟩⟩
  · rintro ⟨hroom, hport, hlt, r, hr, hcase⟩
    have hfits := h.pushed q (by rw [hlen, hcap]; omega)
    rw [retires_latchWord (hfits.top_zero_of_two hq), retires_load hm]
    refine ⟨by omega, ?_⟩
    rcases hcase with ⟨h0, c, rest, hin, hv⟩ | ⟨hport', hlt', hv⟩
    · have hmem := (hm.addressed (Nat.zero_le _)).consumed c rest
      refine .inl ⟨h0, c, rest, hin, ?_⟩
      rw [retires_readBehind hmem hfits (by simpa using hcap) hq hp, Machine.view_consumed]
      exact ⟨hroom, hport, hlt, r, hr, hv⟩
    · have hstart := hm.start_le
      have hmem := hm.addressed (a := q.toInt.toNat) (by omega)
      refine .inr ⟨hport', hlt', ?_⟩
      rw [retires_readBehind hmem hfits (by simpa using hcap) hq hp]
      exact ⟨hroom, hport, hlt, r, hr, hv⟩

theorem retires_readIndirect {program : Program} {config : Machine.Config}
    (hm : m.Invariant program config) :
    Retires readIndirect m v ↔ IndirectEffect m.view .readIndirect v := by
  have h := hm.fits
  show Retires (latchAddress 0 >>= fun _ => Microcode.read >>= readThrough)
    (m.holding m.memory m.datapath m.ticks) v ↔ _
  rw [retires_latchAddress]
  simp only [h.top_zero_eq_ok_iff, retires_load hm.memory]
  constructor
  · rintro ⟨p, ⟨w, hw⟩, ⟨h0, c, rest, hin, hr⟩ | ⟨hport, hlt, hr⟩⟩
    · -- A pointer in the input port can be read but not written.
      have hmem := (hm.memory.addressed (Nat.zero_le _)).consumed c rest
      rw [retires_readThrough hmem h rfl hw (by omega)] at hr
      obtain ⟨-, hport, -⟩ := hr
      omega
    · have hstart := hm.memory.start_le
      have hmem := hm.memory.addressed (a := p.toInt.toNat) (by omega)
      rw [retires_readThrough hmem h rfl hw (by omega)] at hr
      obtain ⟨hroom, -, -, r, hr, ⟨h0, c, rest, hin, rfl⟩ | ⟨hport', hlt', rfl⟩⟩ := hr
      · exact .readInput hw hport hlt rfl h0 hin hr hroom
      · exact .readData hw hport hlt rfl hport' hlt' hr hroom
  · intro heff
    have hstart := hm.memory.start_le
    cases heff with
    | readInput hw hport hlt hq h0 hin hr hroom =>
      subst hq
      change _ < (m.memory.programStart : Int) at hlt
      refine ⟨_, ⟨_, hw⟩, .inr ⟨hport, hlt, ?_⟩⟩
      exact (retires_readThrough (hm.memory.addressed (by omega)) h rfl hw (by omega)).2
        ⟨hroom, hport, hlt, _, hr, .inl ⟨h0, _, _, hin, rfl⟩⟩
    | readData hw hport hlt hq hport' hlt' hr hroom =>
      subst hq
      change _ < (m.memory.programStart : Int) at hlt
      refine ⟨_, ⟨_, hw⟩, .inr ⟨hport, hlt, ?_⟩⟩
      exact (retires_readThrough (hm.memory.addressed (by omega)) h rfl hw (by omega)).2
        ⟨hroom, hport, hlt, _, hr, .inr ⟨hport', hlt', rfl⟩⟩

/-! ## Writing through a pointer -/

/-- The end of a write, from `.. x p q` to `..`: the pointer goes up. -/
def writeEnd : Microcode Unit :=
  latchAddress 1 >>= fun _ => tick >>= fun _ =>
    inspect (fun m => m.datapath.topIncremented 0) >>= fun next =>
    Microcode.write next >>= fun _ => adjustHead (-3) >>= fun _ => finishWith []

theorem topIncremented_eq_ok_iff (h : d.Fits) {w : List Word} {q r : Word}
    (hw : d.words = w ++ [q]) : d.topIncremented 0 = .ok r ↔ r.toInt = q.toInt + 1 := by
  rw [Datapath.topIncremented, h.top_zero_eq_ok_iff.2 ⟨w, hw⟩]
  exact AluOp.checked_eq_ok_iff.trans Word.ofInt?_eq_some_iff

theorem retires_writeEnd (hm : mem.Loaded n text) (h : d.Fits)
    (hcap : d.capacity = m.datapath.capacity) {w : List Word} {x p q : Word}
    (hw : d.words = w ++ [x, p, q]) (hp : p.toInt ≠ 1) :
    Retires writeEnd (m.holding mem d ticks) v ↔
      2 ≤ p.toInt ∧ p.toInt < mem.programStart ∧ ∃ r : Word, r.toInt = q.toInt + 1 ∧
        v = ((m.holding mem m.datapath m.ticks).view.store p.toInt r).next w := by
  have htop := h.top_one_eq_ok_iff.2 ⟨w ++ [x], q, by simpa using hw⟩
  have hinc {r : Word} := topIncremented_eq_ok_iff (r := r) h (w := w ++ [x, p]) (by simpa using hw)
  rw [writeEnd, retires_latchWord htop, retires_tick, retires_inspect]
  show (_ ∧ _ ∧ ∃ r, d.topIncremented 0 = .ok r ∧ _) ↔ _
  simp only [hinc]
  constructor
  · rintro ⟨h0, hsize, r, hq, hr⟩
    obtain ⟨hport, hlt, hv⟩ :=
      (retires_writeBack hm h hcap hw (by simp) hp).1 ⟨h0, hsize, hr⟩
    exact ⟨hport, hlt, r, hq, hv⟩
  · rintro ⟨hport, hlt, r, hq, hv⟩
    obtain ⟨h0, hsize, hr⟩ :=
      (retires_writeBack hm h hcap hw (by simp) hp).2 ⟨hport, hlt, hv⟩
    exact ⟨h0, hsize, r, hq, hr⟩

/-- A write once the pointer is known, from `.. x p` to `..`. -/
def writeThrough (q : Word) : Microcode Unit :=
  push q >>= fun _ => tick >>= fun _ => latchAddress 0 >>= fun _ => tick >>= fun _ =>
    top 2 >>= fun x => Microcode.write x >>= fun _ => tick >>= fun _ => writeEnd

theorem retires_writeThrough (hm : mem.Loaded n text) (h : d.Fits)
    (hcap : d.capacity = m.datapath.capacity) {w : List Word} {x p q : Word}
    (hw : d.words = w ++ [x, p]) (hp : p.toInt ≠ 1) :
    Retires (writeThrough q) (m.holding mem d ticks) v ↔
      w.length + 3 < m.datapath.capacity ∧ 2 ≤ p.toInt ∧ p.toInt < mem.programStart ∧
        ∃ r : Word, r.toInt = q.toInt + 1 ∧
          ((q.toInt = 1 ∧
              v = (((m.holding mem m.datapath m.ticks).view.emit x).store p.toInt r).next w) ∨
            (2 ≤ q.toInt ∧ q.toInt < mem.programStart ∧
              v = (((m.holding mem m.datapath m.ticks).view.store q.toInt x).store
                p.toInt r).next w)) := by
  have hstart := hm.start_le
  have htwo := hm.two_lt
  have hlen : d.words.length = w.length + 2 := by
    rw [hw, List.length_append]
    rfl
  have hq : (d.pushed q).words = w ++ [x, p, q] := by
    rw [h.words_pushed, hw, List.append_assoc]
    rfl
  rw [writeThrough, retires_push h, hlen, hcap, retires_tick]
  refine and_congr_right fun hroom => ?_
  have hfits := h.pushed q (by rw [hlen, hcap]; exact hroom)
  have hcap' : (d.pushed q).capacity = m.datapath.capacity := by simpa using hcap
  rw [retires_latchWord (hfits.top_zero_eq_ok_iff.2 ⟨w ++ [x, p], by simpa using hq⟩),
    retires_tick, retires_topWord (hfits.top_two_eq_ok_iff.2 ⟨w, p, q, hq⟩), retires_store hm,
    retires_tick, retires_tick]
  constructor
  · rintro (⟨h1, hr⟩ | ⟨hport, hlt, hr⟩)
    · have hmem := (hm.addressed (a := 1) (by omega)).emitted x
      rw [retires_writeEnd hmem hfits hcap' hq hp, Machine.view_emitted] at hr
      obtain ⟨hport, hlt, r, hr, hv⟩ := hr
      exact ⟨hport, hlt, r, hr, .inl ⟨h1, hv⟩⟩
    · have hmem := (hm.addressed (a := q.toInt.toNat) (by omega)).stored (a := q.toInt.toNat)
        (by show _ < mem.programStart; omega) x
      rw [retires_writeEnd hmem hfits hcap' hq hp, Machine.view_stored _ _ _ _ (by omega)
        (by show _ < mem.size; omega), Int.toNat_of_nonneg (by omega)] at hr
      obtain ⟨hport', hlt', r, hr, hv⟩ := hr
      exact ⟨hport', hlt', r, hr, .inr ⟨hport, hlt, hv⟩⟩
  · rintro ⟨hport, hlt, r, hr, ⟨h1, hv⟩ | ⟨hport', hlt', hv⟩⟩
    · have hmem := (hm.addressed (a := 1) (by omega)).emitted x
      refine .inl ⟨h1, ?_⟩
      rw [retires_writeEnd hmem hfits hcap' hq hp, Machine.view_emitted]
      exact ⟨hport, hlt, r, hr, hv⟩
    · have hmem := (hm.addressed (a := q.toInt.toNat) (by omega)).stored (a := q.toInt.toNat)
        (by show _ < mem.programStart; omega) x
      refine .inr ⟨hport', hlt', ?_⟩
      rw [retires_writeEnd hmem hfits hcap' hq hp, Machine.view_stored _ _ _ _ (by omega)
        (by show _ < mem.size; omega), Int.toNat_of_nonneg (by omega)]
      exact ⟨hport, hlt, r, hr, hv⟩

theorem words_of_writeThrough (h : d.Fits) {q : Word}
    (hr : Retires (writeThrough q) (m.holding mem d ticks) v) :
    ∃ w x p, d.words = w ++ [x, p] := by
  rw [writeThrough, retires_push h] at hr
  obtain ⟨hroom, hr⟩ := hr
  have hfits := h.pushed q hroom
  rw [retires_tick, retires_latchAddress] at hr
  obtain ⟨_, -, -, -, hr⟩ := hr
  rw [retires_tick, top, retires_inspect] at hr
  obtain ⟨x, hx, -⟩ := hr
  obtain ⟨w, p, q', hw⟩ := hfits.top_two_eq_ok_iff.1 hx
  rw [h.words_pushed] at hw
  obtain ⟨hw, -⟩ := List.append_inj' (hw.trans (List.append_assoc w [x, p] [q']).symm) rfl
  exact ⟨w, x, p, hw⟩

theorem retires_writeIndirect {program : Program} {config : Machine.Config}
    (hm : m.Invariant program config) :
    Retires writeIndirect m v ↔ IndirectEffect m.view .writeIndirect v := by
  have h := hm.fits
  show Retires (latchAddress 0 >>= fun _ => Microcode.read >>= writeThrough)
    (m.holding m.memory m.datapath m.ticks) v ↔ _
  rw [retires_latchAddress]
  simp only [retires_load hm.memory]
  constructor
  · rintro ⟨p, htop, ⟨h0, c, rest, _, hr⟩ | ⟨hport, hlt, hr⟩⟩
    · obtain ⟨w, x, p', hw⟩ := words_of_writeThrough h hr
      obtain rfl := Except.ok.inj ((h.top_zero_of_two hw).symm.trans htop)
      have hmem := (hm.memory.addressed (Nat.zero_le _)).consumed c rest
      rw [retires_writeThrough hmem h rfl hw (by omega)] at hr
      obtain ⟨-, hport, -⟩ := hr
      omega
    · obtain ⟨w, x, p', hw⟩ := words_of_writeThrough h hr
      obtain rfl := Except.ok.inj ((h.top_zero_of_two hw).symm.trans htop)
      have hstart := hm.memory.start_le
      have hmem := hm.memory.addressed (a := p'.toInt.toNat) (by omega)
      rw [retires_writeThrough hmem h rfl hw (by omega)] at hr
      obtain ⟨hroom, -, -, r, hr, ⟨h1, rfl⟩ | ⟨hport', hlt', rfl⟩⟩ := hr
      · exact .writeOutput hw hport hlt rfl h1 hr hroom
      · exact .writeData hw hport hlt rfl hport' hlt' hr hroom
  · intro heff
    have hstart := hm.memory.start_le
    cases heff with
    | writeOutput hw hport hlt hq h1 hr hroom =>
      subst hq
      change _ < (m.memory.programStart : Int) at hlt
      refine ⟨_, h.top_zero_of_two hw, .inr ⟨hport, hlt, ?_⟩⟩
      exact (retires_writeThrough (hm.memory.addressed (by omega)) h rfl hw (by omega)).2
        ⟨hroom, hport, hlt, _, hr, .inl ⟨h1, rfl⟩⟩
    | writeData hw hport hlt hq hport' hlt' hr hroom =>
      subst hq
      change _ < (m.memory.programStart : Int) at hlt
      refine ⟨_, h.top_zero_of_two hw, .inr ⟨hport, hlt, ?_⟩⟩
      exact (retires_writeThrough (hm.memory.addressed (by omega)) h rfl hw (by omega)).2
        ⟨hroom, hport, hlt, _, hr, .inr ⟨hport', hlt', rfl⟩⟩

end Microcode

/-- On every reachable machine, an instruction that addresses memory through a
pointer retires exactly when its row applies, and then it takes five ticks. -/
theorem step_retires_iff_indirectEffect {program : Program} {input : List Char}
    {config : Machine.Config} {m : Machine} (hm : m.Reachable program input config)
    {i : Instruction} (hi : m.memory.fetch m.pc = .ok i)
    (hop : i.opcode = .readIndirect ∨ i.opcode = .writeIndirect)
    (opcode : Opcode) (v : View) (ticks : Nat) :
    (∃ m', Machine.step m = .ok opcode m' ∧ m'.view = v ∧ m'.ticks = ticks) ↔
      opcode = i.opcode ∧ IndirectEffect m.view i.opcode v ∧ ticks = m.ticks + 5 := by
  have hinv := hm.invariant.executing (some i)
  have hexec : Retires (Microcode.execute i) (m.executing (some i)) v ↔
      IndirectEffect m.view i.opcode v := by
    obtain ⟨_, argument, term⟩ := i
    rcases hop with rfl | rfl
    · exact Microcode.retires_readIndirect hinv
    · exact Microcode.retires_writeIndirect hinv
  have hfive : i.opcode.ticks = 5 := by
    rcases hop with h | h
    all_goals rw [h]; rfl
  constructor
  · rintro ⟨m', hstep, hv, rfl⟩
    have hticks := Machine.ticks_of_step hstep
    obtain ⟨j, hj, rfl, hm'⟩ := Machine.step_eq_ok_iff.1 hstep
    obtain rfl := Except.ok.inj (hi.symm.trans hj)
    exact ⟨rfl, hexec.1 ⟨m', hm', hv⟩, hticks.trans (by rw [hfive])⟩
  · rintro ⟨rfl, heff, rfl⟩
    obtain ⟨m', hm', hv⟩ := hexec.2 heff
    have hstep := Machine.step_eq_ok_iff.2 ⟨i, hi, rfl, hm'⟩
    exact ⟨m', hstep, hv, (Machine.ticks_of_step hstep).trans (by rw [hfive])⟩

/-- A pointer at address 2 that points at itself: the word goes there first, and the
pointer, one up, on top of it. -/
theorem step_retires_iff_indirectEffect_self :
    ∃ m : Machine,
      m.Reachable
        ⟨some [0, 0, Word.ofChar '\x02'],
          [⟨.push, some (.number Word.yes), none⟩, ⟨.push, some (.char '\x02'), none⟩,
            ⟨.writeIndirect, none, none⟩]⟩ [] ⟨132, 4, 5⟩ ∧
      ∃ m', Machine.step m = .ok .writeIndirect m' ∧
        m'.view = ((m.view.store 2 Word.yes).store 2 (Word.ofChar '\x03')).next [] ∧
        m'.ticks = 7 := by
  have hm : Machine.Reachable
      ⟨some [0, 0, Word.ofChar '\x02'],
        [⟨.push, some (.number Word.yes), none⟩, ⟨.push, some (.char '\x02'), none⟩,
          ⟨.writeIndirect, none, none⟩]⟩ [] ⟨132, 4, 5⟩ _ :=
    ⟨_, .next (.next (.start rfl)), rfl⟩
  refine ⟨_, hm, ?_⟩
  exact (step_retires_iff_indirectEffect hm (i := ⟨.writeIndirect, none, none⟩)
    (hm.invariant.memory.fetch_eq_ok_iff.2 (by decide +kernel)) (.inr rfl) .writeIndirect _ _).2
      ⟨rfl, .writeData (w := []) (x := Word.yes) (p := Word.ofChar '\x02')
        (q := Word.ofChar '\x02') (r := Word.ofChar '\x03') (by decide +kernel) (by decide)
        (by decide +kernel) (by decide +kernel) (by decide) (by decide +kernel) (by decide)
        (by decide +kernel), by decide +kernel⟩

end Microstack
