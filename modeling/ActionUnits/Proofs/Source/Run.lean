import ActionUnits.Source.Fragment

/-! # Runs of parsers

What a successful run of each basic parser reads and writes. Statements about
larger parsers take a run apart with these equivalences and never look into the
state that a parser threads through.
-/

namespace ActionUnits.Source

variable {α β : Type} {c d : Cursor}

/-! ## Sequencing -/

/-- One reading after the other reads what the first leaves to the second. -/
theorem bind_eq_some {p : Parser α} {f : α → Parser β} {b : β} :
    (p >>= f) c = some (b, d) ↔ ∃ a m, p c = some (a, m) ∧ f a m = some (b, d) := by
  change (p c).bind (fun r => f r.1 r.2) = some (b, d) ↔ _
  rw [Option.bind_eq_some_iff]
  constructor
  · rintro ⟨⟨a, m⟩, hp, hf⟩
    exact ⟨a, m, hp, hf⟩
  · rintro ⟨a, m, hp, hf⟩
    exact ⟨(a, m), hp, hf⟩

theorem bind_of_eq_some {p : Parser α} {a : α} (h : p c = some (a, d)) (f : α → Parser β) :
    (p >>= f) c = f a d := by
  change (p c).bind (fun r => f r.1 r.2) = _
  rw [h]
  rfl

/-- Only the run from the cursor at hand matters. -/
theorem bind_apply_congr {p q : Parser α} (h : p c = q c) (f : α → Parser β) :
    (p >>= f) c = (q >>= f) c := by
  change (p c).bind (fun r => f r.1 r.2) = (q c).bind _
  rw [h]

theorem pure_eq_some {a b : α} : (pure a : Parser α) c = some (b, d) ↔ a = b ∧ c = d := by
  change some (a, c) = some (b, d) ↔ _
  rw [Option.some.injEq, Prod.mk.injEq]

@[simp] theorem pure_apply (a : α) : (pure a : Parser α) c = some (a, c) := rfl

@[simp] theorem failure_apply : (failure : Parser α) c = none := rfl

/-! ## Looking ahead -/

@[simp] theorem peek_apply (question : Peek) : peek question c = some (question c.rest, c) := rfl

theorem peek_bind_apply (question : Peek) (f : Bool → Parser β) :
    (peek question >>= f) c = f (question c.rest) c := rfl

theorem require_eq_some {condition : Bool} {u : Unit} :
    require condition c = some (u, d) ↔ condition = true ∧ c = d := by
  cases condition
  · simp [require]
  · rw [require, if_pos rfl, pure_eq_some]
    simp

@[simp] theorem require_true_apply : require true c = some ((), c) := rfl

@[simp] theorem get_apply : (get : Parser Cursor) c = some (c, c) := rfl

/-- Writing adds tokens and reads nothing. -/
@[simp] theorem write_apply (tokens : List Token) :
    write tokens c = some ((), ⟨c.rest, tokens.reverse ++ c.written⟩) := rfl

/-- Skipping drops tokens and writes nothing. -/
@[simp] theorem skip_apply (count : Nat) :
    skip count c = some ((), ⟨c.rest.drop count, c.written⟩) := rfl

/-- One token is taken, and nothing is written for it. -/
theorem take_eq_some {token : Token} :
    take c = some (token, d) ↔ c.rest = token :: d.rest ∧ d.written = c.written := by
  obtain ⟨rest, written⟩ := c
  obtain ⟨rest', written'⟩ := d
  cases rest with
  | nil => simp [take, bind, StateT.bind, get, getThe, MonadStateOf.get, StateT.get, pure]
  | cons token' rest =>
      change some (token', Cursor.mk rest written) = _ ↔ _
      simp only [Option.some.injEq, Prod.mk.injEq, Cursor.mk.injEq, List.cons.injEq]
      constructor
      · rintro ⟨rfl, rfl, rfl⟩
        exact ⟨⟨rfl, rfl⟩, rfl⟩
      · rintro ⟨⟨rfl, rfl⟩, rfl⟩
        exact ⟨rfl, rfl, rfl⟩

theorem lift_eq_some {x : Option α} {a : α} :
    (StateT.lift x : Parser α) c = some (a, d) ↔ x = some a ∧ c = d := by
  cases x with
  | none => simp [StateT.lift]
  | some b =>
      change some (b, c) = some (a, d) ↔ _
      rw [Option.some.injEq, Prod.mk.injEq, Option.some.injEq]

@[simp] theorem set_apply (e : Cursor) : (set e : Parser PUnit) c = some (⟨⟩, e) := rfl

/-- What a parser writes is captured instead of being written. -/
theorem capture_eq_some {p : Parser α} {a : α} {tokens : List Token} :
    capture p c = some ((a, tokens), d) ↔
      ∃ written, p ⟨c.rest, []⟩ = some (a, ⟨d.rest, written⟩) ∧ tokens = written.reverse ∧
        d.written = c.written := by
  unfold capture
  rw [bind_of_eq_some get_apply, bind_of_eq_some (set_apply _), bind_eq_some]
  constructor
  · rintro ⟨b, ⟨rest, written⟩, hrun, hrest⟩
    simp only [bind_of_eq_some get_apply, bind_of_eq_some (set_apply _), pure_eq_some,
      Prod.mk.injEq] at hrest
    obtain ⟨⟨rfl, rfl⟩, rfl⟩ := hrest
    exact ⟨written, hrun, rfl, rfl⟩
  · rintro ⟨written, hrun, rfl, hwritten⟩
    refine ⟨a, _, hrun, ?_⟩
    rw [bind_of_eq_some get_apply, bind_of_eq_some (set_apply _), pure_eq_some, ← hwritten]
    exact ⟨rfl, rfl⟩

/-- A group is read if its contents are read to their end; what was written inside is written
between the same brackets. -/
theorem group_eq_some {delimiter : Delimiter} {p : Parser α} {a : α} :
    group delimiter p c = some (a, d) ↔
      ∃ body written, c.rest = .group delimiter body :: d.rest ∧
        p ⟨body, []⟩ = some (a, ⟨[], written⟩) ∧
        d.written = .group delimiter written.reverse :: c.written := by
  unfold group
  rw [bind_eq_some]
  constructor
  · rintro ⟨token, m, htake, hrun⟩
    obtain ⟨hrest, hwritten⟩ := take_eq_some.mp htake
    cases token with
    | ident name => cases hrun
    | punct char joint => cases hrun
    | literal text => cases hrun
    | group other body =>
        obtain ⟨_, m₁, hrequire, hbody⟩ := bind_eq_some.mp hrun
        obtain ⟨hdelimiter, rfl⟩ := require_eq_some.mp hrequire
        obtain ⟨⟨result, after⟩, m₂, hlift, hclose⟩ := bind_eq_some.mp hbody
        obtain ⟨hinside, rfl⟩ := lift_eq_some.mp hlift
        obtain ⟨_, m₃, hrequire, hwrite⟩ := bind_eq_some.mp hclose
        obtain ⟨hend, rfl⟩ := require_eq_some.mp hrequire
        simp only [bind_of_eq_some (write_apply _), pure_apply, Option.some.injEq,
          Prod.mk.injEq] at hwrite
        obtain ⟨rfl, rfl⟩ := hwrite
        obtain ⟨rest, written⟩ := after
        obtain rfl : rest = [] := List.isEmpty_iff.mp hend
        obtain rfl : other = delimiter := eq_of_beq hdelimiter
        exact ⟨body, written, hrest, hinside, by simp [hwritten]⟩
  · rintro ⟨body, written, hrest, hinside, hwritten⟩
    refine ⟨.group delimiter body, ⟨d.rest, c.written⟩, take_eq_some.mpr ⟨hrest, rfl⟩, ?_⟩
    refine bind_eq_some.mpr ⟨(), _, require_eq_some.mpr ⟨by simp, rfl⟩, ?_⟩
    refine bind_eq_some.mpr ⟨(a, ⟨[], written⟩), _, lift_eq_some.mpr ⟨hinside, rfl⟩, ?_⟩
    refine bind_eq_some.mpr ⟨(), _, require_eq_some.mpr ⟨rfl, rfl⟩, ?_⟩
    simp [bind_of_eq_some (write_apply _), ← hwritten]

end ActionUnits.Source
