/-
# `Microstack.Proofs.Stack` — the datapath is a bounded list

Calls are made of an empty datapath, in any order and any number, those that fail included.
What can be said of the datapath that they leave is said of a list of words with an end that
moves (`BoundedList`):

    push w             if one more word fits below the capacity    words ++ [w]
    adjustHead (-k)    if there are k words                        words without the last k
    adjustHead 1       k times after that                          words, the k of them again
    popTruth           if there is a word                          words without the last
    top i              if i ≤ 3 and there are more than i words    words as they were

and a call that fails leaves nothing to be seen.  A push that does not fit has stored its word
all the same, in the first slot that no call can see; and what lies above the head comes back
only because nothing else was stored there (`Raises`).
-/
import Microstack.Proofs.Datapath
import Microstack.Proofs.Journal

namespace Microstack.Datapath

inductive Call
  | push (w : Word)
  | adjustHead (delta : Int)
  | popTruth
  | latch (op : AluOp)
  | top (offset : Nat)
  | topIncremented (offset : Nat)

/-- Makes a call.  What it answers is left out. -/
def Call.perform : Call → Action Unit
  | push w => Datapath.push w
  | adjustHead delta => Datapath.adjustHead delta
  | popTruth => Datapath.popTruth >>= fun _ => pure ()
  | latch op => Datapath.latch op
  | top offset => look fun d => (d.top offset).map fun _ => ()
  | topIncremented offset => look fun d => (d.topIncremented offset).map fun _ => ()

/-- Calls by which the head goes up a number of times, with nothing between that stores a word
or moves the head. -/
inductive Raises : Nat → Datapath → List Call → Prop
  | none (d : Datapath) : Raises 0 d []
  | up {k : Nat} {d : Datapath} {calls : List Call} :
      Raises k (leaves (Call.perform (.adjustHead 1)) d) calls →
      Raises (k + 1) d (.adjustHead 1 :: calls)
  | idle {k : Nat} {d : Datapath} {c : Call} {calls : List Call} :
      (leaves c.perform d).slots = d.slots → (leaves c.perform d).head = d.head →
      Raises k (leaves c.perform d) calls → Raises k d (c :: calls)

/-- What holds of a bounded list of words. -/
structure BoundedList (capacity : Nat) (d : Datapath) : Prop where
  head_lt : d.head < capacity
  length_words : d.words.length = d.head
  push_completes : ∀ w, (∃ d', push w d = .ok () d') ↔ d.head + 1 < capacity
  words_push : ∀ w d', push w d = .ok () d' → d'.words = d.words ++ [w]
  /-- A push that does not fit stores its word, too. -/
  push_stores : ∀ w f d', push w d = .error f d' → d'.slots[d.head]? = some w
  /-- The head down by `k`, and then up again `j` times: all but the last `k - j` words are
  there, and if that leaves any out the head can go up once more. -/
  words_restored : ∀ (k : Nat) d', adjustHead (-k) d = .ok () d' →
    ∀ j calls, Raises j d' calls → j ≤ k →
      (leavesAll Call.perform calls d').words = d.words.take (d.head - (k - j)) ∧
        (j < k → ∃ d'', adjustHead 1 (leavesAll Call.perform calls d') = .ok () d'')
  popTruth_completes : (∃ t d', popTruth d = .ok t d') ↔ 1 ≤ d.head
  words_popTruth : ∀ t d', popTruth d = .ok t d' →
    ∃ w, d.words = d'.words ++ [w] ∧ (t = true ↔ w.toInt = -1)
  top_completes : ∀ i, (∃ w, d.top i = .ok w) ↔ i ≤ 3 ∧ i < d.head
  /-- Offsets count from the end of the words. -/
  top_eq : ∀ i w, d.top i = .ok w → d.words.reverse[i]? = some w
  failed : ∀ (c : Call) f d', c.perform d = .error f d' →
    d'.head = d.head ∧ d'.words = d.words ∧ d'.accumulator = d.accumulator

variable {d d' : Datapath} {c : Nat} {w : Word}

/-! ## The head -/

theorem adjustHead_eq_ok_iff {delta : Int} {u : Unit} :
    adjustHead delta d = .ok u d' ↔
      delta ∈ headSteps ∧ 0 ≤ d.head + delta ∧ d.head + delta < d.capacity ∧
        d' = { d with head := (d.head + delta).toNat } := by
  unfold adjustHead
  by_cases hstep : delta ∈ headSteps
  · rw [if_neg (not_not_intro hstep)]
    split
    · next hin => simp [hstep, hin, eq_comm]
    · next hout =>
      constructor
      · intro h
        cases h
      · rintro ⟨-, hlo, hhi, -⟩
        exact absurd ⟨hlo, hhi⟩ hout
  · simp [hstep]

theorem eq_of_adjustHead_error {delta : Int} {f : Fault} (h : adjustHead delta d = .error f d') :
    d' = d := by
  unfold adjustHead at h
  split at h
  · cases h
    rfl
  · split at h
    · cases h
    · cases h
      rfl

theorem bounds_of_lower {k : Nat} {u : Unit} (h : adjustHead (-k) d = .ok u d') :
    1 ≤ k ∧ k ≤ 3 := by
  have hstep := (adjustHead_eq_ok_iff.1 h).1
  simp only [headSteps, List.mem_cons, List.not_mem_nil, or_false] at hstep
  omega

theorem leaves_raise (h : d.head + 1 < d.capacity) :
    leaves (Call.perform (.adjustHead 1)) d = { d with head := d.head + 1 } := by
  refine leaves_of_ok (a := ()) (adjustHead_eq_ok_iff.2 ⟨by decide, by omega, by omega, ?_⟩)
  have hhead : ((d.head : Int) + 1).toNat = d.head + 1 := by omega
  rw [hhead]

/-- The head goes up as often as it is asked to, over slots that stay as they are. -/
theorem Raises.leaves_head {k : Nat} {calls : List Call} (h : Raises k d calls)
    (hroom : d.head + k < d.capacity) :
    (leavesAll Call.perform calls d).slots = d.slots ∧
      (leavesAll Call.perform calls d).head = d.head + k := by
  induction h with
  | none d => exact ⟨rfl, rfl⟩
  | @up k d calls _ ih =>
    rw [leaves_raise (by omega)] at ih
    rw [leavesAll, leaves_raise (by omega)]
    obtain ⟨hslots, hhead⟩ := ih (by
      show d.head + 1 + k < d.capacity
      omega)
    refine ⟨hslots, hhead.trans ?_⟩
    show d.head + 1 + k = d.head + (k + 1)
    omega
  | idle hslots hhead _ ih =>
    rw [capacity, hslots, hhead] at ih
    rw [leavesAll]
    exact ih hroom

/-- What was below the head is there again as far as the head has come up. -/
theorem Fits.words_restored (h : d.Fits) {k j : Nat} (hlower : adjustHead (-k) d = .ok () d')
    {calls : List Call} (hraises : Raises j d' calls) (hj : j ≤ k) :
    (leavesAll Call.perform calls d').words = d.words.take (d.head - (k - j)) ∧
      (j < k → ∃ d'', adjustHead 1 (leavesAll Call.perform calls d') = .ok () d'') := by
  have hlt : d.head < d.slots.size := h
  obtain ⟨hle, -, rfl⟩ := (adjustHead_neg_eq_ok_iff (bounds_of_lower hlower)).1 hlower
  have hlow : (d.popped k).head = d.head - k := rfl
  obtain ⟨hslots, hhead⟩ := hraises.leaves_head (by
    rw [hlow]
    show d.head - k + j < d.slots.size
    omega)
  generalize leavesAll Call.perform calls (d.popped k) = last at hslots hhead ⊢
  rw [hlow] at hhead
  constructor
  · rw [words, words, hslots, hhead, List.take_take, Nat.min_eq_left (Nat.sub_le _ _),
      show d.head - k + j = d.head - (k - j) by omega]
    rfl
  · intro hj
    have hcapacity : last.capacity = d.slots.size := by
      rw [capacity, hslots]
      rfl
    exact ⟨_, adjustHead_eq_ok_iff.2 ⟨by decide, by omega, by omega, rfl⟩⟩

/-! ## The words -/

theorem Fits.popTruth_of_words (h : d.Fits) (hpos : 1 ≤ d.head) :
    ∃ t d', popTruth d = .ok t d' := by
  obtain ⟨ws, xs, hw, hlength⟩ := h.exists_words hpos
  obtain ⟨b, rfl⟩ := List.length_eq_one_iff.1 hlength
  exact ⟨_, _, h.popTruth_eq_ok_iff.2 ⟨ws, b, hw, rfl, rfl⟩⟩

theorem popTruth_of_empty (h : d.head = 0) : popTruth d = .error (.stackUnderflow 0 0) d := by
  have hlatch : latch .notTrue d = .error (.stackUnderflow 0 0) d := by
    have htop : d.top 0 = .error (.stackUnderflow 0 0) := by
      rw [top, if_neg (by decide), if_pos (Nat.le_of_eq h), h]
    simp only [latch, result, htop]
    rfl
  exact bind_of_error hlatch

theorem Fits.words_popTruth (h : d.Fits) {t : Bool} (hpop : popTruth d = .ok t d') :
    ∃ w, d.words = d'.words ++ [w] ∧ (t = true ↔ w.toInt = -1) := by
  obtain ⟨ws, b, hw, rfl, rfl⟩ := h.popTruth_eq_ok_iff.1 hpop
  have hwords := (h.accumulated (if b = Word.yes then Word.no else Word.yes)).words_popped hw
  refine ⟨b, by rw [hw]; exact congrArg (· ++ [b]) hwords.symm, ?_⟩
  rw [decide_eq_true_iff, Word.ext_iff]
  rfl

theorem top_completes_iff {i : Nat} : (∃ w, d.top i = .ok w) ↔ i ≤ 3 ∧ i < d.head := by
  have hdeepest : deepest = 3 := rfl
  unfold top
  split
  · next hdeep =>
    constructor
    · rintro ⟨w, hw⟩
      cases hw
    · rintro ⟨hi, -⟩
      omega
  · split
    · next hhead =>
      constructor
      · rintro ⟨w, hw⟩
        cases hw
      · rintro ⟨-, hi⟩
        omega
    · exact ⟨fun _ => ⟨by omega, by omega⟩, fun _ => ⟨_, rfl⟩⟩

theorem Fits.top_eq_reverse (h : d.Fits) {i : Nat} (htop : d.top i = .ok w) :
    d.words.reverse[i]? = some w := by
  obtain ⟨ws, xs, hw, rfl⟩ := h.words_of_top htop
  rw [hw, List.reverse_append, List.reverse_cons, List.append_assoc, ← List.length_reverse,
    List.getElem?_append_right (Nat.le_refl _), Nat.sub_self]
  rfl

/-! ## Calls -/

theorem leads_perform (c : Nat) (call : Call) : Leads (Sized c) call.perform (Sized c) := by
  cases call with
  | push w => exact leads_push c w
  | adjustHead delta => exact leads_adjustHead c delta
  | popTruth => exact (leads_popTruth c).bind fun _ => Leads.pure _
  | latch op => exact leads_latch c op
  | top offset => exact leads_look _
  | topIncremented offset => exact leads_look _

theorem leaves_latch (op : AluOp) (d : Datapath) :
    leaves (latch op) d = d ∨ ∃ r, leaves (latch op) d = d.accumulated r := by
  cases hr : d.result op with
  | ok r =>
    have hlatch : latch op d = .ok () (d.accumulated r) := latch_eq_ok_iff.2 ⟨r, hr, rfl⟩
    exact .inr ⟨r, leaves_of_ok hlatch⟩
  | error f =>
    left
    simp only [leaves, latch, hr]

/-- The calls that store no word and leave the head where it is, whatever comes of them. -/
def Call.isQuiet : Call → Bool
  | latch _ | top _ | topIncremented _ => true
  | push _ | adjustHead _ | popTruth => false

theorem Raises.quiet {k : Nat} {call : Call} {calls : List Call} (hcall : call.isQuiet = true)
    (h : Raises k (leaves call.perform d) calls) : Raises k d (call :: calls) := by
  have hsame : (leaves call.perform d).slots = d.slots ∧ (leaves call.perform d).head = d.head := by
    cases call with
    | push w => cases hcall
    | adjustHead delta => cases hcall
    | popTruth => cases hcall
    | latch op =>
      simp only [Call.perform]
      rcases leaves_latch op d with hsame | ⟨r, hr⟩
      · rw [hsame]
        exact ⟨rfl, rfl⟩
      · rw [hr]
        exact ⟨rfl, rfl⟩
    | top offset => simp only [Call.perform, leaves_look, and_self]
    | topIncremented offset => simp only [Call.perform, leaves_look, and_self]
  exact .idle hsame.1 hsame.2 h

theorem eq_spilled_of_error {f : Fault} (hfail : push w d = .error f d') :
    d' = d.spilled w := by
  have hfull : d.capacity ≤ d.head + 1 := by
    refine Nat.le_of_not_lt fun hroom => ?_
    have hpush : push w d = .ok () (d.pushed w) := push_eq_ok_iff.2 ⟨hroom, rfl⟩
    cases hfail.symm.trans hpush
  cases hfail.symm.trans (push_of_full w hfull)
  rfl

theorem Fits.failed (h : d.Fits) {call : Call} {f : Fault} (hfail : call.perform d = .error f d') :
    d'.head = d.head ∧ d'.words = d.words ∧ d'.accumulator = d.accumulator := by
  have same (heq : d' = d) :
      d'.head = d.head ∧ d'.words = d.words ∧ d'.accumulator = d.accumulator := by
    subst heq
    exact ⟨rfl, rfl, rfl⟩
  cases call with
  | push w =>
    -- The word is in the slot at the head, which is not one of the words.
    rw [eq_spilled_of_error hfail]
    exact ⟨rfl, words_spilled d w, rfl⟩
  | adjustHead delta => exact same (eq_of_adjustHead_error hfail)
  | popTruth =>
    rcases Nat.eq_zero_or_pos d.head with hempty | hpos
    · cases hfail.symm.trans (bind_of_error (popTruth_of_empty hempty))
      exact ⟨rfl, rfl, rfl⟩
    · obtain ⟨t, last, hpop⟩ := h.popTruth_of_words hpos
      cases hfail.symm.trans (bind_of_ok hpop)
  | latch op =>
    cases hr : d.result op with
    | ok r =>
      have hlatch : latch op d = .ok () (d.accumulated r) := latch_eq_ok_iff.2 ⟨r, hr, rfl⟩
      cases hfail.symm.trans hlatch
    | error found =>
      have hlatch : latch op d = .error found d := by simp only [latch, hr]
      cases hfail.symm.trans hlatch
      exact ⟨rfl, rfl, rfl⟩
  | top offset =>
    simp only [Call.perform] at hfail
    exact same (eq_of_look_error hfail)
  | topIncremented offset =>
    simp only [Call.perform] at hfail
    exact same (eq_of_look_error hfail)

theorem Sized.boundedList {capacity : Nat} (h : d.Sized capacity) : BoundedList capacity d := by
  obtain ⟨rfl, hfits⟩ := h
  constructor
  case head_lt => exact hfits
  case length_words => exact hfits.length_words
  case push_completes =>
    intro w
    constructor
    · rintro ⟨d', hpush⟩
      exact (push_eq_ok_iff.1 hpush).1
    · intro hroom
      exact ⟨_, push_eq_ok_iff.2 ⟨hroom, rfl⟩⟩
  case words_push =>
    intro w d' hpush
    obtain ⟨-, rfl⟩ := push_eq_ok_iff.1 hpush
    exact hfits.words_pushed w
  case push_stores =>
    intro w f d' hfail
    rw [eq_spilled_of_error hfail]
    exact Array.getElem?_setIfInBounds_self_of_lt hfits
  case words_restored =>
    intro k d' hlower j calls hraises hj
    exact hfits.words_restored hlower hraises hj
  case popTruth_completes =>
    constructor
    · rintro ⟨t, d', hpop⟩
      obtain ⟨w, hw, -⟩ := hfits.words_popTruth hpop
      rw [← hfits.length_words, hw, List.length_append]
      exact Nat.le_add_left 1 _
    · exact hfits.popTruth_of_words
  case words_popTruth =>
    intro t d' hpop
    exact hfits.words_popTruth hpop
  case top_completes => exact fun i => top_completes_iff
  case top_eq => exact fun i w htop => hfits.top_eq_reverse htop
  case failed => exact fun call f d' hfail => hfits.failed hfail

/-- Whatever is called of a new datapath, it is a bounded list, empty at first. -/
theorem datapath_bounded_list {capacity : Nat} (h : 1 ≤ capacity) :
    ∃ d₀, create capacity = .ok d₀ ∧ d₀.words = [] ∧
      ∀ calls, BoundedList capacity (leavesAll Call.perform calls d₀) := by
  have hcreate : create capacity = .ok ⟨Array.replicate capacity 0, 0, 0⟩ :=
    if_neg (Nat.ne_of_gt h)
  refine ⟨_, hcreate, words_of_create hcreate, fun calls => ?_⟩
  exact (Leads.leavesAll (leads_perform capacity) calls (sized_of_create hcreate)).boundedList

/-- Four words for a stack that holds three. -/
def overfull : List Call := [.push (.wrap 7), .push (.wrap 8), .push (.wrap 9), .push (.wrap 10)]

/-- Two words are taken off the three that fit, and come back though a result is computed
between. -/
theorem datapath_bounded_list_overfull :
    1 ≤ 4 ∧ ∃ d₀ d', create 4 = .ok d₀ ∧ d₀.words = [] ∧
      BoundedList 4 (leavesAll Call.perform overfull d₀) ∧
      adjustHead (-2) (leavesAll Call.perform overfull d₀) = .ok () d' ∧
      (leavesAll Call.perform [.adjustHead 1, .latch .neg, .top 3, .adjustHead 1] d').words =
        [.wrap 7, .wrap 8, .wrap 9] := by
  obtain ⟨d₀, hcreate, hempty, hlist⟩ := datapath_bounded_list (show 1 ≤ 4 by decide)
  obtain rfl := Except.ok.inj hcreate
  refine ⟨by decide, _, _, rfl, hempty, hlist overfull, rfl, ?_⟩
  have hraises : ∀ d, Raises 2 d [.adjustHead 1, .latch .neg, .top 3, .adjustHead 1] :=
    fun d => .up (.quiet rfl (.quiet rfl (.up (.none _))))
  exact ((hlist overfull).words_restored 2 _ rfl 2 _ (hraises _) (Nat.le_refl 2)).1

end Microstack.Datapath
