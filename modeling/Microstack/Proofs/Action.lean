/-
# `Microstack.Proofs.Action` — sequences of actions that may fail

An action takes a state and either completes with a result or fails, and either
way leaves a state.  Two questions are asked of a sequence of actions:

    when does it complete, and in which state?    `bind_eq_ok_iff`
    what holds of the state it leaves?            `Leads`

`Leads P c Q` says of an action that starts where `P` holds: `Q` holds if it
completes, and `P` still does if it fails.  A sequence leads from `P` to `Q` when
all its actions but the last lead from `P` back to `P` (`Leads.bind`).
-/

namespace Microstack

variable {ε σ α β : Type} {s s' : σ}

/-! ## Completing -/

/-- A sequence completes when its first action does, and then the rest does from
the state and with the result that the first one left. -/
theorem bind_eq_ok_iff {c : EStateM ε σ α} {f : α → EStateM ε σ β} {b : β} :
    (c >>= f) s = .ok b s' ↔ ∃ a mid, c s = .ok a mid ∧ f a mid = .ok b s' := by
  show EStateM.bind c f s = _ ↔ _
  unfold EStateM.bind
  split
  · next a mid h =>
    rw [h]
    constructor
    · intro hf
      exact ⟨a, mid, rfl, hf⟩
    · rintro ⟨_, _, heq, hf⟩
      cases heq
      exact hf
  · next t mid h =>
    rw [h]
    constructor
    · intro hf
      cases hf
    · rintro ⟨_, _, heq, _⟩
      cases heq

theorem bind_eq_error_iff {c : EStateM ε σ α} {f : α → EStateM ε σ β} {e : ε} :
    (c >>= f) s = .error e s' ↔
      c s = .error e s' ∨ ∃ a mid, c s = .ok a mid ∧ f a mid = .error e s' := by
  show EStateM.bind c f s = _ ↔ _
  unfold EStateM.bind
  split
  · next a mid h =>
    rw [h]
    constructor
    · intro hf
      exact .inr ⟨a, mid, rfl, hf⟩
    · rintro (heq | ⟨_, _, heq, hf⟩)
      · cases heq
      · cases heq
        exact hf
  · next t mid h =>
    rw [h]
    constructor
    · intro heq
      cases heq
      exact .inl rfl
    · rintro (heq | ⟨_, _, heq, _⟩)
      · cases heq
        rfl
      · cases heq

theorem bind_of_ok {c : EStateM ε σ α} {f : α → EStateM ε σ β} {a : α} (h : c s = .ok a s') :
    (c >>= f) s = f a s' := by
  show EStateM.bind c f s = _
  rw [EStateM.bind, h]

theorem bind_of_error {c : EStateM ε σ α} {f : α → EStateM ε σ β} {e : ε}
    (h : c s = .error e s') : (c >>= f) s = .error e s' := by
  show EStateM.bind c f s = _
  rw [EStateM.bind, h]

theorem pure_eq_ok_iff {a b : α} :
    (pure a : EStateM ε σ α) s = .ok b s' ↔ a = b ∧ s = s' := by
  show EStateM.Result.ok a s = .ok b s' ↔ _
  simp

theorem bind_pure_eq_ok_iff {c : EStateM ε σ α} {f : α → β} {b : β} :
    (c >>= fun a => pure (f a)) s = .ok b s' ↔ ∃ a, c s = .ok a s' ∧ f a = b := by
  simp only [bind_eq_ok_iff, pure_eq_ok_iff]
  constructor
  · rintro ⟨a, mid, hc, rfl, rfl⟩
    exact ⟨a, hc, rfl⟩
  · rintro ⟨a, hc, rfl⟩
    exact ⟨a, s', hc, rfl, rfl⟩

theorem bind_pure_eq_error_iff {c : EStateM ε σ α} {f : α → β} {e : ε} :
    (c >>= fun a => pure (f a)) s = .error e s' ↔ c s = .error e s' := by
  rw [bind_eq_error_iff]
  constructor
  · rintro (hc | ⟨a, mid, -, hrest⟩)
    · exact hc
    · cases hrest
  · exact .inl

theorem get_eq_ok_iff {a : σ} :
    (get : EStateM ε σ σ) s = .ok a s' ↔ s = a ∧ s = s' := by
  show EStateM.Result.ok s s = .ok a s' ↔ _
  simp

theorem modify_eq_ok_iff {f : σ → σ} {u : PUnit} :
    (modify f : EStateM ε σ PUnit) s = .ok u s' ↔ f s = s' := by
  show EStateM.Result.ok PUnit.unit (f s) = .ok u s' ↔ _
  simp

theorem except_bind_eq_ok_iff {x : Except ε α} {f : α → Except ε β} {b : β} :
    (x >>= f) = .ok b ↔ ∃ a, x = .ok a ∧ f a = .ok b := by
  cases x with
  | error e => simp [bind, Except.bind]
  | ok a => simp [bind, Except.bind]

theorem except_bind_eq_error_iff {x : Except ε α} {f : α → Except ε β} {e : ε} :
    (x >>= f) = .error e ↔ x = .error e ∨ ∃ a, x = .ok a ∧ f a = .error e := by
  cases x with
  | error e => simp [bind, Except.bind]
  | ok a => simp [bind, Except.bind]

theorem exists_of_toOption_map {x : Except ε α} {f : α → β} {b : β}
    (h : x.toOption.map f = some b) : ∃ a, x = .ok a ∧ f a = b := by
  cases x with
  | error e => cases h
  | ok a => exact ⟨a, rfl, Option.some.inj h⟩

/-! Lists of parts, each of which may fail. -/

theorem filterMap_concat (f : α → Option β) (as : List α) (a : α) :
    (as ++ [a]).filterMap f = as.filterMap f ++ (f a).toList := by
  rw [List.filterMap_append]
  cases hfa : f a with
  | none => rw [List.filterMap_cons_none hfa]; rfl
  | some b => rw [List.filterMap_cons_some hfa]; rfl

theorem exists_of_mem_mapM {f : α → Except ε β} {as : List α} {bs : List β}
    (h : as.mapM f = .ok bs) {b : β} (hb : b ∈ bs) : ∃ a ∈ as, f a = .ok b := by
  induction as generalizing bs with
  | nil =>
    cases h
    cases hb
  | cons a as ih =>
    simp only [List.mapM_cons, except_bind_eq_ok_iff] at h
    obtain ⟨b', hb', bs', hbs', heq⟩ := h
    cases heq
    rcases List.mem_cons.1 hb with rfl | hb
    · exact ⟨a, by simp, hb'⟩
    · obtain ⟨v, hv, hread⟩ := ih hbs' hb
      exact ⟨v, by simp [hv], hread⟩

theorem foldlM_keeps {P : σ → Prop} {f : σ → α → Except ε σ} {as : List α}
    (hstep : ∀ a ∈ as, ∀ s s', P s → f s a = .ok s' → P s') (hs : P s)
    (h : as.foldlM f s = .ok s') : P s' := by
  induction as generalizing s with
  | nil =>
    cases h
    exact hs
  | cons a as ih =>
    rw [List.foldlM_cons, except_bind_eq_ok_iff] at h
    obtain ⟨mid, hmid, hrest⟩ := h
    exact ih (fun b hb => hstep b (by simp [hb])) (hstep a (by simp) s mid hs hmid) hrest

/-! ## What holds afterwards -/

/-- From where `P` holds, the action completes where `Q` holds or fails where `P`
still does. -/
def Leads (P : σ → Prop) (c : EStateM ε σ α) (Q : σ → Prop) : Prop :=
  ∀ s, P s →
    match c s with
    | .ok _ s' => Q s'
    | .error _ s' => P s'

/-- The state that an action leaves, completed or failed. -/
def leaves (c : EStateM ε σ α) (s : σ) : σ :=
  match c s with
  | .ok _ s' => s'
  | .error _ s' => s'

theorem leaves_of_ok {c : EStateM ε σ α} {a : α} (h : c s = .ok a s') : leaves c s = s' := by
  rw [leaves, h]

theorem leaves_of_error {c : EStateM ε σ α} {e : ε} (h : c s = .error e s') :
    leaves c s = s' := by
  rw [leaves, h]

theorem leaves_bind_of_ok {c : EStateM ε σ α} {f : α → EStateM ε σ β} {a : α}
    (h : c s = .ok a s') : leaves (c >>= f) s = leaves (f a) s' := by
  rw [leaves, leaves, bind_of_ok h]

namespace Leads

variable {P Q : σ → Prop}

theorem ok {c : EStateM ε σ α} (h : Leads P c Q) (hs : P s) {a : α} (hc : c s = .ok a s') :
    Q s' := by
  have := h s hs
  rw [hc] at this
  exact this

theorem error {c : EStateM ε σ α} (h : Leads P c Q) (hs : P s) {e : ε}
    (hc : c s = .error e s') : P s' := by
  have := h s hs
  rw [hc] at this
  exact this

theorem leaves {c : EStateM ε σ α} (h : Leads P c P) (hs : P s) : P (leaves c s) := by
  have := h s hs
  unfold Microstack.leaves
  split at this
  · exact this
  · exact this

theorem bind {c : EStateM ε σ α} {f : α → EStateM ε σ β} (hc : Leads P c P)
    (hf : ∀ a, Leads P (f a) Q) : Leads P (c >>= f) Q := by
  intro s hs
  show match EStateM.bind c f s with
    | .ok _ s' => Q s'
    | .error _ s' => P s'
  unfold EStateM.bind
  cases h : c s with
  | ok a mid => exact hf a mid (hc.ok hs h)
  | error e mid => exact hc.error hs h

theorem pure (a : α) : Leads P (Pure.pure a : EStateM ε σ α) P := fun _ hs => hs

theorem get : Leads P (MonadState.get : EStateM ε σ σ) P := fun _ hs => hs

theorem throw (e : ε) : Leads P (throw e : EStateM ε σ α) Q := fun _ hs => hs

theorem modify {f : σ → σ} (hf : ∀ s, P s → Q (f s)) :
    Leads P (modify f : EStateM ε σ PUnit) Q := hf

end Leads

/-! ## Looking -/

/-- A look at the state, which may fail and changes nothing. -/
def look (answer : σ → Except ε α) : EStateM ε σ α := fun s =>
  match answer s with
  | .ok a => .ok a s
  | .error e => .error e s

theorem look_eq_ok_iff {answer : σ → Except ε α} {a : α} :
    look answer s = .ok a s' ↔ answer s = .ok a ∧ s' = s := by
  cases ha : answer s with
  | ok b => simp [look, ha, eq_comm]
  | error e => simp [look, ha]

theorem leaves_look (answer : σ → Except ε α) (s : σ) : leaves (look answer) s = s := by
  cases ha : answer s with
  | ok a => simp only [leaves, look, ha]
  | error e => simp only [leaves, look, ha]

theorem eq_of_look_error {answer : σ → Except ε α} {e : ε} (h : look answer s = .error e s') :
    s' = s :=
  (leaves_of_error h).symm.trans (leaves_look answer s)

theorem leads_look {P : σ → Prop} (answer : σ → Except ε α) : Leads P (look answer) P := by
  intro s hs
  cases ha : answer s with
  | ok a =>
    simp only [look, ha]
    exact hs
  | error e =>
    simp only [look, ha]
    exact hs

end Microstack
