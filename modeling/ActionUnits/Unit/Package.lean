import ActionUnits.Token.Basic

/-!
# Package qualifiers
-/

namespace ActionUnits

/-- A package qualifier, grown to the right: `a.b.c` is `a`, then `b`, then `c`. -/
inductive Package where
  | name (segment : Ident)
  | select (qualifier : Package) (segment : Ident)

namespace Package

def extend (qualifier : Option Package) (segment : Ident) : Package :=
  match qualifier with
  | none => .name segment
  | some package => .select package segment

/-- The qualifier of a sequence of segments; there is none without segments. -/
def ofSegments? (segments : List Ident) : Option Package :=
  segments.foldl (fun qualifier segment => some (extend qualifier segment)) none

def segments : Package → List Ident
  | .name segment => [segment]
  | .select qualifier segment => qualifier.segments ++ [segment]

theorem segments_foldl (segments : List Ident) (package : Package) :
    (segments.foldl (fun qualifier segment => some (extend qualifier segment))
      (some package)).map Package.segments = some (package.segments ++ segments) := by
  induction segments generalizing package with
  | nil => simp
  | cons segment rest ih =>
    rw [List.foldl_cons]
    exact (ih _).trans (by simp [extend, Package.segments])

end Package

end ActionUnits
