import Mathlib.Data.List.Forall2

/-! # How computations end

Inversion of computations that may fail: what has to succeed for a sequence to
succeed, and where its failure comes from.
-/

namespace ActionUnits

variable {ε φ α β : Type} {x : Except ε α} {f : α → Except ε β}

/-- Two steps succeed exactly if the first does and then the second. -/
theorem bind_eq_ok_iff {b : β} : (x >>= f) = .ok b ↔ ∃ a, x = .ok a ∧ f a = .ok b := by
  cases x <;> simp [bind, Except.bind]

/-- Two steps fail exactly if the first does, or the second after it. -/
theorem bind_eq_error_iff {e : ε} :
    (x >>= f) = .error e ↔ x = .error e ∨ ∃ a, x = .ok a ∧ f a = .error e := by
  cases x <;> simp [bind, Except.bind]

@[simp] theorem mapError_eq_ok_iff {g : ε → φ} {a : α} : x.mapError g = .ok a ↔ x = .ok a := by
  cases x <;> simp [Except.mapError]

@[simp] theorem mapError_eq_error_iff {g : ε → φ} {e : φ} :
    x.mapError g = .error e ↔ ∃ e', x = .error e' ∧ g e' = e := by
  cases x <;> simp [Except.mapError]

/-- All elements of a list succeed, each with its own result. -/
theorem mapM_eq_ok_iff {as : List α} {bs : List β} :
    as.mapM f = .ok bs ↔ List.Forall₂ (fun a b => f a = .ok b) as bs := by
  induction as generalizing bs with
  | nil => cases bs <;> simp [pure, Except.pure]
  | cons a as ih =>
      simp only [List.mapM_cons, List.forall₂_cons_left_iff, bind_eq_ok_iff, ih, pure, Except.pure,
        Except.ok.injEq]
      constructor
      · rintro ⟨b, hb, rest, hrest, rfl⟩
        exact ⟨b, rest, hb, hrest, rfl⟩
      · rintro ⟨b, rest, hb, hrest, rfl⟩
        exact ⟨b, hb, rest, hrest, rfl⟩

end ActionUnits
