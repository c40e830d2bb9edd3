import ActionUnits.Proofs.Distinct
import ActionUnits.Proofs.Registry
import ActionUnits.Proofs.Text.Snake
import ActionUnits.Proofs.Text.Split
import Mathlib.Data.List.Nodup

/-! # Names of generated types

The name of a generated type comes from the id of its action by dropping the
underscores and writing the first character of each segment in upper case, and
nothing checks that different ids get different names. A raw identifier and the
identifier without its mark are one name, and so are identifiers with one normal
form. On canonical ids, whose segments are lower-case words, the id can be read
back from the name, so different ids have different names there.
-/

namespace ActionUnits

open Text

namespace Text

/-- A text is its pieces, each with a separator in front, less the first separator. -/
theorem flatMap_cons_splitAll {α : Type} [BEq α] [LawfulBEq α] (sep : α) (xs : List α) :
    (splitAll sep xs).flatMap (sep :: ·) = sep :: xs := by
  induction xs with
  | nil => rfl
  | cons x xs ih =>
      by_cases hx : x = sep
      · subst hx
        rw [splitAll_cons_self, List.flatMap_cons, ih]
        rfl
      · rw [splitAll_cons_of_ne hx]
        cases hpieces : splitAll sep xs with
        | nil => exact absurd hpieces (splitAll_ne_nil sep xs)
        | cons piece pieces =>
            rw [hpieces, List.flatMap_cons, List.cons_append] at ih
            simp only [List.headD_cons, List.tail_cons, List.flatMap_cons, List.cons_append]
            rw [(List.cons.inj ih).2]

end Text

namespace Action

/-- A segment of a canonical id: a lower-case letter, then such letters and digits. -/
def isCanonicalSegment : List Char → Bool
  | [] => false
  | c :: cs => c.isLower && cs.all fun d => d.isLower || d.isDigit

/-- Canonical ids are segments joined by underscores. -/
def isCanonicalId (id : List Char) : Bool :=
  (splitAll '_' id).all isCanonicalSegment

/-- The id that a name without its ending was made from, if that was canonical: every capital
starts a segment. -/
def idOfStem (stem : List Char) : List Char :=
  (stem.flatMap fun c => if c.isUpper then ['_', c.toLower] else [c]).tail

/-- The capital of a lower-case letter, and back. -/
theorem toUpper_of_isLower {c : Char} (h : c.isLower = true) :
    c.toUpper.isUpper = true ∧ c.toUpper.toLower = c ∧ upperChar c = [c.toUpper] ∧
      c.isUpper = false := by
  have hall : ∀ n < 26, (Char.ofNat (97 + n)).toUpper.isUpper = true ∧
      (Char.ofNat (97 + n)).toUpper.toLower = Char.ofNat (97 + n) ∧
      upperChar (Char.ofNat (97 + n)) = [(Char.ofNat (97 + n)).toUpper] ∧
      (Char.ofNat (97 + n)).isUpper = false := by
    decide
  obtain ⟨hlow, hhigh⟩ := isLower_iff.mp h
  have hc := hall (c.toNat - 97) (by omega)
  rwa [Nat.add_sub_cancel' hlow, Char.ofNat_toNat] at hc

theorem isUpper_of_isDigit {c : Char} (h : c.isDigit = true) : c.isUpper = false := by
  simp only [Char.isDigit, Bool.and_eq_true, decide_eq_true_eq] at h
  have hhigh : c.toNat ≤ 57 := h.2
  rw [Bool.eq_false_iff]
  intro hupper
  have hlow := (isUpper_iff.mp hupper).1
  omega

/-- The capital at the start of a segment is where the segment is found again. -/
theorem flatMap_capitalize {piece : List Char} (h : isCanonicalSegment piece = true) :
    (capitalize piece).flatMap (fun c => if c.isUpper then ['_', c.toLower] else [c]) =
      '_' :: piece := by
  cases piece with
  | nil => cases h
  | cons c cs =>
      obtain ⟨hc, hcs⟩ := Bool.and_eq_true_iff.mp h
      obtain ⟨hupper, hlower, hchar, -⟩ := toUpper_of_isLower hc
      have hrest : cs.flatMap (fun c => if c.isUpper then ['_', c.toLower] else [c]) = cs := by
        have hsame : ∀ d ∈ cs, (if d.isUpper then ['_', d.toLower] else [d]) = [d] := by
          intro d hd
          have hnot : d.isUpper = false := by
            rcases Bool.or_eq_true_iff.mp (List.all_eq_true.mp hcs d hd) with hd | hd
            · exact (toUpper_of_isLower hd).2.2.2
            · exact isUpper_of_isDigit hd
          simp [hnot]
        rw [List.flatMap_congr hsame]
        simp
      rw [capitalize, hchar, List.singleton_append, List.flatMap_cons, hrest, hupper, hlower]
      rfl

/-- A canonical id is read back from its stem. -/
theorem idOfStem_flatMap_capitalize {id : List Char} (h : isCanonicalId id = true) :
    idOfStem ((splitAll '_' id).flatMap capitalize) = id := by
  have hpieces : ∀ piece ∈ splitAll '_' id,
      (capitalize piece).flatMap (fun c => if c.isUpper then ['_', c.toLower] else [c]) =
        '_' :: piece :=
    fun piece hpiece => flatMap_capitalize (List.all_eq_true.mp h piece hpiece)
  rw [idOfStem, List.flatMap_assoc, List.flatMap_congr hpieces, flatMap_cons_splitAll]
  rfl

/-- Different canonical ids have different class names. -/
theorem classNameChars_inj {a b : List Char} (ha : isCanonicalId a = true)
    (hb : isCanonicalId b = true) (h : classNameChars a = classNameChars b) : a = b := by
  have hstem := List.append_cancel_right h
  rw [← idOfStem_flatMap_capitalize ha, ← idOfStem_flatMap_capitalize hb, hstem]

/-- Actions with canonical ids have one class name only if they have one id. -/
theorem className_inj {a b : Action} (ha : isCanonicalId a.id.toList = true)
    (hb : isCanonicalId b.id.toList = true) (h : a.className = b.className) : a.id = b.id := by
  refine String.toList_inj.mp (classNameChars_inj ha hb ?_)
  exact String.ofList_injective h

/-- The class name of a canonical id has letters and digits only. -/
theorem isAlphanum_of_mem_classNameChars {id : List Char} (h : isCanonicalId id = true) {d : Char}
    (hd : d ∈ classNameChars id) : d.isAlphanum = true := by
  rcases List.mem_append.mp hd with hd | hd
  · obtain ⟨piece, hpiece, hd⟩ := List.mem_flatMap.mp hd
    have hsegment := List.all_eq_true.mp h piece hpiece
    cases piece with
    | nil => cases hsegment
    | cons c cs =>
        obtain ⟨hc, hcs⟩ := Bool.and_eq_true_iff.mp hsegment
        obtain ⟨hupper, -, hchar, -⟩ := toUpper_of_isLower hc
        rw [capitalize, hchar, List.singleton_append] at hd
        rcases List.mem_cons.mp hd with rfl | hd
        · rw [Char.isAlphanum, isAlpha_eq, hupper, Bool.true_or, Bool.true_or]
        · have hrest := List.all_eq_true.mp hcs d hd
          rw [Char.isAlphanum, isAlpha_eq, Bool.or_assoc, hrest, Bool.or_true]
  · have hending : ∀ d ∈ "Action".toList, d.isAlphanum = true := by decide
    exact hending d hd

/-- The class name of a canonical id starts with the first letter of the id in upper case. -/
theorem isWordText_classNameChars {id : List Char} (h : isCanonicalId id = true) :
    Lexer.IsWordText (classNameChars id) := by
  have hfirst : ∃ c cs, classNameChars id = c :: cs ∧ c.isAlpha = true := by
    have hsegments := List.all_eq_true.mp h
    rw [classNameChars]
    cases hpieces : splitAll '_' id with
    | nil => exact absurd hpieces (splitAll_ne_nil _ _)
    | cons piece pieces =>
        rw [hpieces] at hsegments
        have hsegment := hsegments piece List.mem_cons_self
        cases piece with
        | nil => cases hsegment
        | cons c cs =>
            obtain ⟨hupper, -, hchar, -⟩ := toUpper_of_isLower (Bool.and_eq_true_iff.mp hsegment).1
            rw [List.flatMap_cons, capitalize, hchar]
            exact ⟨_, _, rfl, by rw [isAlpha_eq, hupper, Bool.true_or]⟩
  have halphanum := fun d => isAlphanum_of_mem_classNameChars h (d := d)
  obtain ⟨c, cs, hchars, hc⟩ := hfirst
  rw [hchars] at halphanum ⊢
  refine ⟨hc, fun d hd => ?_⟩
  rw [isIdentContinue, halphanum d (List.mem_cons_of_mem _ hd), Bool.true_or, Bool.true_or]

/-- The class name of a canonical id is the one token that it is written with. -/
theorem lex?_className {action : Action} (h : isCanonicalId action.id.toList = true) :
    Lexer.lex? action.className = some [.word action.className] := by
  have hword := isWordText_classNameChars h
  unfold className
  cases hchars : classNameChars action.id.toList with
  | nil =>
      rw [hchars] at hword
      exact hword.elim
  | cons c cs =>
      rw [hchars] at hword
      exact hword.lex?

end Action

open Emit (TypeLayout)

/-! ## Names and what they denote -/

/-- The text of an identifier without the mark of a raw one. -/
def Ident.unmarked (ident : Ident) : String :=
  match ident.text.toList with
  | 'r' :: '#' :: name => String.ofList name
  | _ => ident.text

example : Ident.unmarked ⟨"r#fooAction"⟩ = Ident.unmarked ⟨"fooAction"⟩ := by decide

/-- A word has no mark. -/
theorem Ident.unmarked_of_isWordText {text : String} (h : Lexer.IsWordText text.toList) :
    Ident.unmarked ⟨text⟩ = text := by
  unfold Ident.unmarked
  split
  · next heq =>
    have hmark : isIdentContinue '#' = true := by
      rw [show text.toList = 'r' :: '#' :: _ from heq] at h
      exact h.mem_continue (List.mem_cons_of_mem _ List.mem_cons_self)
    exact absurd hmark (by decide)
  · rfl

/-- The normal form in which a compiler compares identifiers, so that it does not matter how a
character is composed. Texts of ASCII characters are in normal form. -/
structure NameForm where
  normal : String → String
  normal_of_ascii : ∀ text : String, (∀ c ∈ text.toList, c.toNat < 0x80) → normal text = text

/-- The name that an identifier stands for. -/
def NameForm.name (form : NameForm) (ident : Ident) : String :=
  form.normal ident.unmarked

/-- Names of canonical ids stand for themselves, and so do those of the traits. -/
theorem NameForm.name_of_isAlphanum (form : NameForm) {text : String}
    (h : Lexer.IsWordText text.toList) (hascii : ∀ c ∈ text.toList, c.isAlphanum = true) :
    form.name ⟨text⟩ = text := by
  rw [name, Ident.unmarked_of_isWordText h]
  exact form.normal_of_ascii text fun c hc => IsNameChar.lt (.inl (hascii c hc))

theorem NameForm.name_trait (form : NameForm) (arity : Arity) :
    form.name ⟨TypeLayout.trait arity⟩ = TypeLayout.trait arity := by
  refine form.name_of_isAlphanum ?_ (by cases arity <;> decide)
  cases arity <;> exact ⟨by decide, by decide⟩

/-- The types that the companion module declares under the name of an identifier. Where there is
none, the name is taken from what the module imports. -/
def SourceUnit.declared (unit : SourceUnit) (form : NameForm) (ident : Ident) : List ClassDecl :=
  unit.classes.filter fun decl => form.name decl.ident == form.name ident

/-- The types of a unit can be told apart by their names, from each other and from the traits that
they implement, so that every name denotes what it is meant to denote. -/
structure SourceUnit.Hygienic (unit : SourceUnit) (form : NameForm) : Prop where
  distinct : (unit.classes.map fun decl => form.name decl.ident).Nodup
  traits : ∀ decl ∈ unit.classes, ∀ arity, form.name decl.ident ≠ TypeLayout.trait arity
  /-- An entry of the registry denotes the type that was generated for its own id. -/
  entries : ∀ (i : Nat) (entry : RegistryEntry), unit.registry.entries[i]? = some entry →
    ∃ decl, unit.classes[i]? = some decl ∧ decl.discriminator = entry.discriminator ∧
      unit.declared form entry.ident = [decl]
  /-- No type of the module hides the trait in the header of an implementation. -/
  headers : ∀ decl ∈ unit.classes, unit.declared form ⟨TypeLayout.trait decl.arity⟩ = []

/-- The name under which the type of an action is declared, if its class name is an identifier. -/
def Action.typeName? (form : NameForm) (action : Action) : Option String :=
  match Lexer.lex? action.className with
  | some [.ident ident] => some (form.name ident)
  | _ => none

/-- The type of an action with a canonical id is declared under its class name. -/
theorem Action.typeName?_of_canonical (form : NameForm) {action : Action}
    (h : isCanonicalId action.id.toList = true) :
    action.typeName? form = some action.className := by
  have hchars : action.className.toList = classNameChars action.id.toList := String.toList_ofList
  have hname : form.name ⟨action.className⟩ = action.className := by
    refine form.name_of_isAlphanum ?_ fun c hc => ?_
    · exact hchars ▸ isWordText_classNameChars h
    · exact isAlphanum_of_mem_classNameChars h (hchars ▸ hc)
  rw [typeName?, lex?_className h]
  exact congrArg some hname

/-- In a list without duplicates under a function, one element has the value of that element. -/
theorem filter_eq_singleton {α : Type} {f : α → String} {xs : List α} (h : (xs.map f).Nodup)
    {x : α} (hx : x ∈ xs) : xs.filter (fun y => f y == f x) = [x] := by
  induction xs with
  | nil => cases hx
  | cons y ys ih =>
      obtain ⟨hy, hys⟩ := List.nodup_cons.mp h
      rcases List.mem_cons.mp hx with rfl | hx
      · have hrest : ys.filter (fun y => f y == f x) = [] := by
          refine List.filter_eq_nil_iff.mpr fun y hmem heq => hy ?_
          exact List.mem_map.mpr ⟨y, hmem, beq_iff_eq.mp heq⟩
        rw [List.filter_cons_of_pos (by simp), hrest]
      · have hne : ¬ (f y == f x) = true := by
          intro heq
          exact hy (List.mem_map.mpr ⟨x, hx, (beq_iff_eq.mp heq).symm⟩)
        rw [List.filter_cons, if_neg hne, ih hys hx]

namespace Synthesis

variable {set : ActionSet} {module : ModuleDef} {name : String} {unit : SourceUnit}
  {form : NameForm}

theorem typeName?_of_classDecl {dataset : Source.Fragment Source.Node} {action : Action}
    {decl : ClassDecl} (h : classDecl dataset action = .ok decl) :
    action.typeName? form = some (form.name decl.ident) := by
  obtain ⟨ident, fields, body, aliases, hident, -, -, -, rfl⟩ := classDecl_eq_ok_iff.mp h
  rw [Action.typeName?, (readIdent_eq_ok_iff.mp hident).1]

/-- The names of the types, in the order of the actions. -/
theorem unit_typeNames (h : Synthesis.unit set module name = .ok unit) :
    set.definitions.map (Action.typeName? form) =
      (unit.classes.map fun decl => form.name decl.ident).map some := by
  obtain ⟨qualifier, imports, dataset, classes, registry, companion, -, -, -, hclasses, -, rfl⟩ :=
    unit_eq_ok_iff.mp h
  rw [List.map_map]
  refine List.forall₂_eq_eq_eq ▸ ?_
  rw [List.forall₂_map_left_iff, List.forall₂_map_right_iff]
  exact (mapM_eq_ok_iff.mp hclasses).imp fun _ _ => typeName?_of_classDecl

theorem unit_entries (h : Synthesis.unit set module name = .ok unit) :
    unit.registry.entries = unit.classes.map Registry.entryOf := by
  obtain ⟨qualifier, imports, dataset, classes, registry, companion, -, -, -, -, -, rfl⟩ :=
    unit_eq_ok_iff.mp h
  rfl

/-- The types have different names exactly if the actions have. -/
theorem nodup_names_iff (h : Synthesis.unit set module name = .ok unit) :
    (unit.classes.map fun decl => form.name decl.ident).Nodup ↔
      (set.definitions.map (Action.typeName? form)).Nodup := by
  rw [unit_typeNames h, List.nodup_map_iff fun _ _ => Option.some.inj]

theorem forall_names_iff (form : NameForm) (h : Synthesis.unit set module name = .ok unit)
    (P : String → Prop) :
    (∀ decl ∈ unit.classes, P (form.name decl.ident)) ↔
      ∀ action ∈ set.definitions, ∀ name, action.typeName? form = some name → P name := by
  have hnames : (∀ result ∈ set.definitions.map (Action.typeName? form), ∀ name,
      result = some name → P name) ↔
      ∀ result ∈ (unit.classes.map fun decl => form.name decl.ident).map some, ∀ name,
        result = some name → P name := by
    rw [unit_typeNames h]
  simpa using hnames.symm

/-- Distinct names are all that an entry needs to find its type. -/
theorem entry_denotes (h : Synthesis.unit set module name = .ok unit)
    (hdistinct : (unit.classes.map fun decl => form.name decl.ident).Nodup) {i : Nat}
    {entry : RegistryEntry} (hentry : unit.registry.entries[i]? = some entry) :
    ∃ decl, unit.classes[i]? = some decl ∧ decl.discriminator = entry.discriminator ∧
      unit.declared form entry.ident = [decl] := by
  rw [unit_entries h, List.getElem?_map, Option.map_eq_some_iff] at hentry
  obtain ⟨decl, hdecl, rfl⟩ := hentry
  exact ⟨decl, hdecl, rfl, filter_eq_singleton hdistinct (List.mem_of_getElem? hdecl)⟩

/-- A trait is not hidden unless a type has its name. -/
theorem trait_not_declared {arity : Arity}
    (h : ∀ decl ∈ unit.classes, form.name decl.ident ≠ TypeLayout.trait arity) :
    unit.declared form ⟨TypeLayout.trait arity⟩ = [] := by
  refine List.filter_eq_nil_iff.mpr fun decl hdecl heq => h decl hdecl ?_
  exact (beq_iff_eq.mp heq).trans (form.name_trait arity)

/-- A unit is hygienic exactly if the names that its actions give are. -/
theorem hygienic_iff (h : Synthesis.unit set module name = .ok unit) :
    unit.Hygienic form ↔
      (set.definitions.map (Action.typeName? form)).Nodup ∧
        ∀ action ∈ set.definitions, ∀ arity,
          action.typeName? form ≠ some (TypeLayout.trait arity) := by
  have htraits := forall_names_iff form h fun name => ∀ arity, name ≠ TypeLayout.trait arity
  constructor
  · intro hygienic
    refine ⟨(nodup_names_iff h).mp hygienic.distinct, fun action haction arity hname => ?_⟩
    exact htraits.mp hygienic.traits action haction _ hname arity rfl
  · rintro ⟨hnodup, hnone⟩
    have hdistinct := (nodup_names_iff h).mpr hnodup
    have htraits := htraits.mpr fun action haction name hname arity heq =>
      hnone action haction arity (heq ▸ hname)
    exact ⟨hdistinct, htraits, fun _ _ => entry_denotes h hdistinct, fun decl _ =>
      trait_not_declared fun other hother => htraits other hother decl.arity⟩

/-- Different canonical ids give different names. -/
theorem nodup_typeName? (hids : (set.definitions.map (·.id)).Nodup)
    (hcanonical : ∀ action ∈ set.definitions, Action.isCanonicalId action.id.toList = true) :
    (set.definitions.map (Action.typeName? form)).Nodup := by
  refine nodup_map_of_imp ?_ hids
  intro a ha b hb heq
  rw [Action.typeName?_of_canonical form (hcanonical a ha),
    Action.typeName?_of_canonical form (hcanonical b hb)] at heq
  exact Action.className_inj (hcanonical a ha) (hcanonical b hb) (Option.some.inj heq)

/-- A canonical id gives the name of a trait only if it is one of two. -/
theorem ne_trait_of_canonical {action : Action}
    (hcanonical : Action.isCanonicalId action.id.toList = true)
    (hid : action.id ≠ "single_output" ∧ action.id ≠ "multi_output") (arity : Arity) :
    action.typeName? form ≠ some (TypeLayout.trait arity) := by
  have hne : ∀ id trait : String, Action.isCanonicalId id.toList = true →
      String.ofList (Action.classNameChars id.toList) = trait → action.id ≠ id →
      action.className ≠ trait := by
    rintro id _ hother rfl hid hname
    have hchars := Action.classNameChars_inj hcanonical hother (String.ofList_injective hname)
    exact hid (String.toList_inj.mp hchars)
  rw [Action.typeName?_of_canonical form hcanonical]
  intro heq
  have hname := Option.some.inj heq
  cases arity with
  | single => exact hne "single_output" _ (by decide) (by decide) hid.1 hname
  | multi => exact hne "multi_output" _ (by decide) (by decide) hid.2 hname

end Synthesis

end ActionUnits
