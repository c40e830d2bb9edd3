import ActionUnits.Log

/-!
# Computations that report events

A computation that may fail, with the events it reports on its way. A failure keeps the events
before it.
-/

namespace ActionUnits

/-- A result and the events on the way to it. -/
structure Logged (ε α : Type) where
  result : Except ε α
  events : List Event

namespace Logged

variable {ε φ α β : Type}

/-- A result without events. -/
def ofExcept (result : Except ε α) : Logged ε α :=
  ⟨result, []⟩

def report (events : List Event) : Logged ε Unit :=
  ⟨.ok (), events⟩

/-- Sees a failure as another one. -/
def mapError (f : ε → φ) (x : Logged ε α) : Logged φ α :=
  ⟨x.result.mapError f, x.events⟩

/-- Goes on with a result, unless there was a failure. -/
def andThen (x : Logged ε α) (f : α → Logged ε β) : Logged ε β :=
  match x.result with
  | .ok a => ⟨(f a).result, x.events ++ (f a).events⟩
  | .error e => ⟨.error e, x.events⟩

theorem andThen_of_ok {x : Logged ε α} {a : α} (h : x.result = .ok a) (f : α → Logged ε β) :
    x.andThen f = ⟨(f a).result, x.events ++ (f a).events⟩ := by
  simp only [andThen, h]

theorem andThen_of_error {x : Logged ε α} {e : ε} (h : x.result = .error e) (f : α → Logged ε β) :
    x.andThen f = ⟨.error e, x.events⟩ := by
  simp only [andThen, h]

instance : Monad (Logged ε) where
  pure a := ⟨.ok a, []⟩
  bind := andThen

/-- The results of a computation for each element, in order, up to the first failure. -/
def forEach (f : α → Logged ε β) : List α → Logged ε (List β)
  | [] => ⟨.ok [], []⟩
  | a :: as => (f a).andThen fun b => (forEach f as).andThen fun bs => ⟨.ok (b :: bs), []⟩

end Logged

end ActionUnits
