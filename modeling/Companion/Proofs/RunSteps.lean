import Companion.Run

/-!
# Steps of runs

What it means for the steps of a run to succeed: a sequence succeeds if each of its parts does, in
the worlds in between (`bind_eq_ok`). A sequence fails if one of its parts does
(`bind_eq_error`), and it ends where that part does (`endOf_bind`).
-/

namespace Companion

variable {ε σ α β : Type}

theorem bind_eq_ok {x : EStateM ε σ α} {f : α → EStateM ε σ β} {w w' : σ} {b : β} :
    (x >>= f) w = .ok b w' ↔ ∃ a w₁, x w = .ok a w₁ ∧ f a w₁ = .ok b w' := by
  change EStateM.bind x f w = .ok b w' ↔ _
  unfold EStateM.bind
  rcases x w with ⟨a, w₁⟩ | ⟨e, w₁⟩
  · constructor
    · exact fun h => ⟨a, w₁, rfl, h⟩
    · rintro ⟨_, _, ⟨⟩, h⟩
      exact h
  · simp

theorem bind_eq_error {x : EStateM ε σ α} {f : α → EStateM ε σ β} {w w' : σ} {e : ε} :
    (x >>= f) w = .error e w' ↔
      x w = .error e w' ∨ ∃ a w₁, x w = .ok a w₁ ∧ f a w₁ = .error e w' := by
  change EStateM.bind x f w = .error e w' ↔ _
  unfold EStateM.bind
  rcases x w with ⟨a, w₁⟩ | ⟨e', w₁⟩
  · constructor
    · exact fun h => .inr ⟨a, w₁, rfl, h⟩
    · rintro (h | ⟨_, _, ⟨⟩, h⟩)
      · simp at h
      · exact h
  · simp

/-- After its first part a sequence does what its second part does. -/
theorem bind_of_ok {x : EStateM ε σ α} {f : α → EStateM ε σ β} {w w₁ : σ} {a : α}
    (h : x w = .ok a w₁) : (x >>= f) w = f a w₁ := by
  change EStateM.bind x f w = _
  rw [EStateM.bind, h]

theorem exists_eq_ok_of_isSome {x : EStateM ε σ α} {w : σ} (h : (x.run' w).isSome) :
    ∃ a w', x w = .ok a w' := by
  rcases hx : x w with ⟨a, w'⟩ | ⟨e, w'⟩
  · exact ⟨a, w', rfl⟩
  · delta EStateM.run' EStateM.run at h
    rw [hx] at h
    exact absurd h Bool.false_ne_true

/-- The result and what a run ends in, if it succeeds. -/
def okOf : EStateM.Result ε σ α → Option (α × σ)
  | .ok a w => some (a, w)
  | .error _ _ => none

theorem eq_ok_of_okOf {x : EStateM.Result ε σ α} {a : α} {w : σ} (h : okOf x = some (a, w)) :
    x = .ok a w := by
  rcases x with ⟨a', w'⟩ | ⟨e, w'⟩
  · obtain ⟨rfl, rfl⟩ := Prod.mk.inj (Option.some.inj h)
    rfl
  · simp [okOf] at h

theorem exists_eq_ok_of_okOf {x : EStateM.Result ε σ α} {f : α × σ → β} {b : β}
    (h : (okOf x).map f = some b) : ∃ a w, x = .ok a w ∧ f (a, w) = b := by
  obtain ⟨⟨a, w⟩, hok, hb⟩ := Option.map_eq_some_iff.1 h
  exact ⟨a, w, eq_ok_of_okOf hok, hb⟩

/-- The failure and what a run ends in, if it fails. -/
def errorOf : EStateM.Result ε σ α → Option (ε × σ)
  | .ok _ _ => none
  | .error e w => some (e, w)

theorem eq_error_of_errorOf {x : EStateM.Result ε σ α} {e : ε} {w : σ}
    (h : errorOf x = some (e, w)) : x = .error e w := by
  rcases x with ⟨a, w'⟩ | ⟨e', w'⟩
  · simp [errorOf] at h
  · obtain ⟨rfl, rfl⟩ := Prod.mk.inj (Option.some.inj h)
    rfl

theorem exists_eq_error_of_errorOf {x : EStateM.Result ε σ α} {e : ε}
    (h : (errorOf x).map Prod.fst = some e) : ∃ w, x = .error e w := by
  obtain ⟨⟨_, w⟩, herror, rfl⟩ := Option.map_eq_some_iff.1 h
  exact ⟨w, eq_error_of_errorOf herror⟩

theorem exists_bind_eq_ok {x : EStateM ε σ α} {f : α → EStateM ε σ β} {w w₁ : σ} {a : α} {b : β}
    {p : σ → Prop} (hx : x w = .ok a w₁) (h : ∃ w', f a w₁ = .ok b w' ∧ p w') :
    ∃ w', (x >>= f) w = .ok b w' ∧ p w' := by
  obtain ⟨w', h, hp⟩ := h
  exact ⟨w', bind_eq_ok.2 ⟨a, w₁, hx, h⟩, hp⟩

/-- Sequences agree whose first parts do, and whose second parts do where they come to them. -/
theorem bind_congr_of_ok {x y : EStateM ε σ α} {f g : α → EStateM ε σ β} {w : σ} (hx : x w = y w)
    (h : ∀ a w₁, x w = .ok a w₁ → f a w₁ = g a w₁) : (x >>= f) w = (y >>= g) w := by
  change EStateM.bind x f w = EStateM.bind y g w
  unfold EStateM.bind
  rw [← hx]
  rcases hr : x w with ⟨a, w₁⟩ | ⟨e, w₁⟩
  · exact h a w₁ hr
  · rfl

/-- What a run ends in, with a result or with a failure. -/
def endOf : EStateM.Result ε σ α → σ
  | .ok _ w => w
  | .error _ w => w

/-- A sequence ends where its first part does, or where its second part does that starts from
there. -/
theorem endOf_bind {x : EStateM ε σ α} {f : α → EStateM ε σ β} (w : σ) :
    endOf ((x >>= f) w) = endOf (x w) ∨ ∃ a, endOf ((x >>= f) w) = endOf (f a (endOf (x w))) := by
  change endOf (EStateM.bind x f w) = _ ∨ ∃ a, endOf (EStateM.bind x f w) = _
  unfold EStateM.bind
  rcases x w with ⟨a, w₁⟩ | ⟨e, w₁⟩
  · exact .inr ⟨a, rfl⟩
  · exact .inl rfl

theorem endOf_bind_of_ok {x : EStateM ε σ α} {f : α → EStateM ε σ β} {w w₁ : σ} {a : α}
    (h : x w = .ok a w₁) : endOf ((x >>= f) w) = endOf (f a w₁) := by
  rw [bind_of_ok h]

theorem pure_eq_ok {a b : α} {w w' : σ} :
    (pure a : EStateM ε σ α) w = .ok b w' ↔ a = b ∧ w = w' := by
  change EStateM.Result.ok a w = .ok b w' ↔ _
  simp

theorem throw_eq (e : ε) (w : σ) : (throw e : EStateM ε σ α) w = .error e w :=
  rfl

theorem get_eq_ok (w : σ) : (get : EStateM ε σ σ) w = .ok w w :=
  rfl

theorem modify_eq_ok (f : σ → σ) (w : σ) : (modify f : EStateM ε σ PUnit) w = .ok ⟨⟩ (f w) :=
  rfl

theorem ofExcept_eq_ok {x : Except Failure α} {a : α} {w w' : World} :
    Run.ofExcept x w = .ok a w' ↔ x = .ok a ∧ w' = w := by
  rcases x with f | b
  · simp [Run.ofExcept, throw_eq]
  · simp [Run.ofExcept, pure_eq_ok, eq_comm]

theorem ofExcept_eq_error {x : Except Failure α} {f : Failure} {w w' : World} :
    Run.ofExcept x w = .error f w' ↔ x = .error f ∧ w' = w := by
  rcases x with g | b
  · simp [Run.ofExcept, throw_eq, eq_comm]
  · simp [Run.ofExcept, pure, EStateM.pure]

theorem report_eq_ok (events : List Log.Event) (w : World) :
    Run.report events w = .ok () { w with log := w.log ++ events } :=
  rfl

end Companion
