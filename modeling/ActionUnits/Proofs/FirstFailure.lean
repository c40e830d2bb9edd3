import ActionUnits.Proofs.Generation
import ActionUnits.Proofs.Synthesis

/-! # The first failure of a sequence

Computations that run one after the other stop at the first one that fails, and
its error is the error of the sequence. The others are never looked at.
-/

namespace ActionUnits

variable {ε α β : Type}

/-- The error of the first element for which a computation fails. -/
def FirstFailure (f : α → Except ε β) (as : List α) (e : ε) : Prop :=
  ∃ before a after, as = before ++ a :: after ∧ (∀ b ∈ before, ∃ c, f b = .ok c) ∧ f a = .error e

theorem firstFailure_nil (f : α → Except ε β) (e : ε) : ¬ FirstFailure f [] e := by
  rintro ⟨before, a, after, h, -, -⟩
  cases before <;> cases h

/-- An element that does not fail is passed over; one that does ends the search. -/
theorem firstFailure_cons {f : α → Except ε β} {a : α} {as : List α} {e : ε} :
    FirstFailure f (a :: as) e ↔ f a = .error e ∨ (∃ c, f a = .ok c) ∧ FirstFailure f as e := by
  constructor
  · rintro ⟨before, b, after, heq, hbefore, hb⟩
    cases before with
    | nil =>
        obtain ⟨rfl, rfl⟩ := List.cons.inj heq
        exact .inl hb
    | cons first before =>
        obtain ⟨rfl, rfl⟩ := List.cons.inj heq
        refine .inr ⟨hbefore a List.mem_cons_self, before, b, after, rfl, ?_, hb⟩
        exact fun c hc => hbefore c (List.mem_cons_of_mem _ hc)
  · rintro (ha | ⟨ha, before, b, after, rfl, hbefore, hb⟩)
    · exact ⟨[], a, as, rfl, by simp, ha⟩
    · refine ⟨a :: before, b, after, rfl, ?_, hb⟩
      intro c hc
      rcases List.mem_cons.mp hc with rfl | hc
      · exact ha
      · exact hbefore c hc

/-- A list of steps fails as the first of them that fails does. -/
theorem mapM_eq_error_iff {f : α → Except ε β} {as : List α} {e : ε} :
    as.mapM f = .error e ↔ FirstFailure f as e := by
  induction as with
  | nil => simp [firstFailure_nil, pure, Except.pure]
  | cons a as ih =>
      rw [List.mapM_cons, firstFailure_cons, ← ih]
      cases ha : f a with
      | error other => simp [bind, Except.bind]
      | ok b => cases as.mapM f <;> simp [bind, Except.bind, pure, Except.pure]

/-- A list of steps succeeds exactly if each of them does. -/
theorem exists_mapM_eq_ok_iff {f : α → Except ε β} {as : List α} :
    (∃ bs, as.mapM f = .ok bs) ↔ ∀ a ∈ as, ∃ b, f a = .ok b := by
  induction as with
  | nil => simp [pure, Except.pure]
  | cons a as ih =>
      rw [List.forall_mem_cons, ← ih, List.mapM_cons]
      cases f a with
      | error e => simp [bind, Except.bind]
      | ok b => cases as.mapM f <;> simp [bind, Except.bind, pure, Except.pure]

namespace Logged

theorem result_forEach (f : α → Logged ε β) (as : List α) :
    (forEach f as).result = as.mapM fun a => (f a).result := by
  induction as with
  | nil => rfl
  | cons a as ih =>
      rw [List.mapM_cons, ← ih]
      change ((f a) >>= fun b => (forEach f as) >>= fun bs => pure (b :: bs)).result = _
      rw [result_bind]
      congr 1
      funext b
      rw [result_bind]
      rfl

end Logged

end ActionUnits
