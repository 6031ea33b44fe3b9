import ReactiveViews.Run
/-!
# What computations come to

Computations come to an outcome and a world, or to nothing. Here is what the ways of
putting them together come to.
-/

namespace ReactiveViews

namespace Machine

variable {α β : Type}

theorem pure_apply (a : α) (calls : Calls) (w : World) :
    (pure a : Machine α) calls w = some (.ok a, w) := rfl

theorem throw_apply (e : Error) (calls : Calls) (w : World) :
    (throw e : Machine α) calls w = some (.error e, w) := rfl

theorem get_apply (calls : Calls) (w : World) :
    (get : Machine World) calls w = some (.ok w, w) := rfl

theorem set_apply (calls : Calls) (w w' : World) :
    (set w' : Machine PUnit) calls w = some (.ok ⟨⟩, w') := rfl

theorem modify_apply (f : World → World) (calls : Calls) (w : World) :
    (modify f : Machine PUnit) calls w = some (.ok ⟨⟩, f w) := rfl

theorem modifyGet_apply (f : World → α × World) (calls : Calls) (w : World) :
    (modifyGet f : Machine α) calls w = some (.ok (f w).1, (f w).2) := rfl

theorem read_apply (f : World → α) (calls : Calls) (w : World) :
    (read f : Machine α) calls w = some (.ok (f w), w) := rfl

theorem bind_apply (m : Machine α) (f : α → Machine β) (calls : Calls) (w : World) :
    (m >>= f) calls w =
      match m calls w with
      | some (.ok a, w') => f a calls w'
      | some (.error e, w') => some (.error e, w')
      | none => none := by
  show (ExceptT.bind (m calls) (fun a => f a calls)) w = _
  simp only [ExceptT.bind, ExceptT.mk, StateT.bind, bind, Option.bind]
  cases m calls w with
  | none => rfl
  | some x =>
    obtain ⟨_ | _, w'⟩ := x
    · rfl
    · rfl

/-- A sequence has a value if and only if both parts have. -/
theorem bind_eq_some {m : Machine α} {f : α → Machine β} {calls : Calls} {w w' : World}
    {r : Except Error β} (h : (m >>= f) calls w = some (r, w')) :
    (∃ e, m calls w = some (.error e, w') ∧ r = .error e) ∨
      ∃ a w₁, m calls w = some (.ok a, w₁) ∧ f a calls w₁ = some (r, w') := by
  rw [bind_apply] at h
  cases hm : m calls w with
  | none =>
    rw [hm] at h
    exact absurd h (by simp)
  | some x =>
    obtain ⟨_ | a, w₁⟩ := x
    · rw [hm] at h
      obtain ⟨rfl, rfl⟩ : .error _ = r ∧ w₁ = w' := by simpa using h
      exact .inl ⟨_, rfl, rfl⟩
    · rw [hm] at h
      exact .inr ⟨a, w₁, rfl, h⟩

/-- What a computation comes to in a changed world. -/
theorem within_eq_some {enter : World → World} {leave : World → World → World} {m : Machine α}
    {calls : Calls} {w w' : World} {r : Except Error α} :
    within enter leave m calls w = some (r, w') ↔
      ∃ w₁, m calls (enter w) = some (r, w₁) ∧ w' = leave w w₁ := by
  unfold within
  cases m calls (enter w) with
  | none => simp
  | some x =>
    obtain ⟨r₁, w₁⟩ := x
    constructor
    · intro h
      obtain ⟨rfl, rfl⟩ : r₁ = r ∧ leave w w₁ = w' := by simpa using h
      exact ⟨w₁, rfl, rfl⟩
    · rintro ⟨w₂, h, rfl⟩
      obtain ⟨rfl, rfl⟩ : r₁ = r ∧ w₁ = w₂ := by simpa using h
      rfl

/-- What catching comes to. -/
theorem attempt_eq_some {m : Machine α} {calls : Calls} {w w' : World}
    {r : Except Error (Except Error α)} :
    attempt m calls w = some (r, w') ↔ ∃ x, m calls w = some (x, w') ∧ r = .ok x := by
  unfold attempt
  cases m calls w with
  | none => simp
  | some y =>
    obtain ⟨x, w₁⟩ := y
    constructor
    · intro h
      obtain ⟨rfl, rfl⟩ := Prod.mk.inj (Option.some.inj h)
      exact ⟨x, rfl, rfl⟩
    · rintro ⟨x', h, rfl⟩
      obtain ⟨rfl, rfl⟩ := Prod.mk.inj (Option.some.inj h)
      rfl

end Machine

end ReactiveViews
