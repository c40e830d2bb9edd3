import ActionUnits.Proofs.Aliases

/-! # What is printed for an alias expression

How the appends of an alias expression are nested makes no difference: two
expressions come from each other by regrouping appends exactly if they have the
same leaves in the same order, and then they are printed alike, as one array of
their leaves that is concatenated once. The printed tokens have the value of the
expression, whatever the values of the fields are.
-/

namespace ActionUnits

namespace AliasExpr

/-! ## The leaves in their places -/

/-- A side of an append. -/
inductive Side where
  | left
  | right

/-- The part of an expression at a place; a place is given by the sides that lead to it. -/
def part? : AliasExpr → List Side → Option AliasExpr
  | e, [] => some e
  | .append left _, .left :: place => left.part? place
  | .append _ right, .right :: place => right.part? place
  | _, _ => none

/-- One place is on the left and the other one on the right of some append. -/
def Before (p q : List Side) : Prop :=
  ∃ common p' q', p = common ++ .left :: p' ∧ q = common ++ .right :: q'

theorem Before.cons {p q : List Side} (h : Before p q) (side : Side) :
    Before (side :: p) (side :: q) := by
  obtain ⟨common, p', q', rfl, rfl⟩ := h
  exact ⟨side :: common, p', q', rfl, rfl⟩

/-- The places of the leaves of an expression, from left to right. -/
def leafPlaces : AliasExpr → List (List Side)
  | .append left right =>
    left.leafPlaces.map (.left :: ·) ++ right.leafPlaces.map (.right :: ·)
  | _ => [[]]

/-- The leaves are listed from left to right. -/
theorem leafPlaces_pairwise (e : AliasExpr) : e.leafPlaces.Pairwise Before := by
  induction e with
  | append left right ihl ihr =>
    refine List.pairwise_append.mpr ⟨?_, ?_, ?_⟩
    · exact List.pairwise_map.mpr (ihl.imp fun h => h.cons .left)
    · exact List.pairwise_map.mpr (ihr.imp fun h => h.cons .right)
    · intro p hp q hq
      obtain ⟨p, -, rfl⟩ := List.mem_map.mp hp
      obtain ⟨q, -, rfl⟩ := List.mem_map.mp hq
      exact ⟨[], p, q, rfl, rfl⟩
  | _ => exact List.pairwise_singleton _ _

/-- A place is that of a leaf if the part there is no append. -/
theorem mem_leafPlaces_iff {e : AliasExpr} {place : List Side} :
    place ∈ e.leafPlaces ↔
      ∃ leaf, e.part? place = some leaf ∧ ∀ left right, leaf ≠ .append left right := by
  induction e generalizing place with
  | append left right ihl ihr =>
    rw [leafPlaces, List.mem_append, List.mem_map, List.mem_map]
    cases place with
    | nil =>
      have hnone : ¬ ∃ leaf, (append left right).part? [] = some leaf ∧
          ∀ left right, leaf ≠ .append left right := by
        rintro ⟨leaf, hpart, hleaf⟩
        exact hleaf left right (Option.some.inj hpart).symm
      simp [hnone]
    | cons side place =>
      cases side with
      | left => simpa [part?] using ihl
      | right => simpa [part?] using ihr
  | _ => cases place <;> simp [leafPlaces, part?]

/-- At the places of the leaves stand the operands, in their order. -/
theorem part?_leafPlaces (e : AliasExpr) :
    e.leafPlaces.map e.part? = e.operands.map some := by
  induction e with
  | append left right ihl ihr =>
    rw [leafPlaces, operands, List.map_append, List.map_append, List.map_map, List.map_map, ← ihl,
      ← ihr]
    rfl
  | _ => rfl

/-! ## Regrouping appends -/

/-- One expression comes from another one by regrouping appends. -/
inductive Regrouped : AliasExpr → AliasExpr → Prop where
  | refl (e : AliasExpr) : Regrouped e e
  | symm {e e' : AliasExpr} : Regrouped e e' → Regrouped e' e
  | trans {e e' e'' : AliasExpr} : Regrouped e e' → Regrouped e' e'' → Regrouped e e''
  | append {left left' right right' : AliasExpr} : Regrouped left left' →
      Regrouped right right' → Regrouped (.append left right) (.append left' right')
  | assoc (first second third : AliasExpr) :
      Regrouped (.append (.append first second) third) (.append first (.append second third))

/-- Grouping the operands in another way leaves them as they are. -/
theorem Regrouped.operands_eq {e e' : AliasExpr} (h : Regrouped e e') :
    e.operands = e'.operands := by
  induction h with
  | refl e => rfl
  | symm _ ih => exact ih.symm
  | trans _ _ ih ih' => exact ih.trans ih'
  | append _ _ ihl ihr => rw [operands, operands, ihl, ihr]
  | assoc first second third => exact List.append_assoc _ _ _

/-- What is appended later does not matter to how the operands are grouped. -/
theorem Regrouped.foldl_append {e e' : AliasExpr} (h : Regrouped e e') (es : List AliasExpr) :
    Regrouped (es.foldl .append e) (es.foldl .append e') := by
  induction es generalizing e e' with
  | nil => exact h
  | cons next es ih => exact ih (h.append (.refl next))

/-- A chain of appends after an expression goes on with its elements one by one. -/
theorem Regrouped.append_chain (e next : AliasExpr) (es : List AliasExpr) :
    Regrouped (.append e (es.foldl .append next)) ((next :: es).foldl .append e) := by
  induction es generalizing next with
  | nil => exact .refl _
  | cons third es ih =>
    have hfirst := (Regrouped.assoc e next third).symm.foldl_append es
    exact (ih (.append next third)).trans hfirst

theorem operands_ne_nil (e : AliasExpr) : e.operands ≠ [] := by
  induction e with
  | append left right ihl _ => exact List.append_ne_nil_of_left_ne_nil ihl _
  | _ => exact List.cons_ne_nil _ _

/-- Every expression regroups to the chain of its leaves. -/
theorem regrouped_appendAll? (e : AliasExpr) :
    ∃ chain, appendAll? e.operands = some chain ∧ Regrouped e chain := by
  induction e with
  | append left right ihl ihr =>
    obtain ⟨first, rest, hleft⟩ := List.exists_cons_of_ne_nil left.operands_ne_nil
    obtain ⟨next, others, hright⟩ := List.exists_cons_of_ne_nil right.operands_ne_nil
    obtain ⟨chain, hchain, hl⟩ := ihl
    obtain ⟨chain', hchain', hr⟩ := ihr
    rw [hleft] at hchain
    rw [hright] at hchain'
    obtain rfl := Option.some.inj hchain
    obtain rfl := Option.some.inj hchain'
    refine ⟨(rest ++ next :: others).foldl .append first, ?_, ?_⟩
    · rw [operands, hleft, hright]
      rfl
    -- Both sides are chains by now, and the chain on the right is appended leaf by leaf.
    · rw [List.foldl_append]
      exact (hl.append hr).trans (.append_chain _ next others)
  | _ => exact ⟨_, rfl, .refl _⟩

/-- Expressions with the same leaves in the same order come from each other by regrouping. -/
theorem regrouped_iff {e e' : AliasExpr} : Regrouped e e' ↔ e'.operands = e.operands := by
  refine ⟨fun h => h.operands_eq.symm, fun h => ?_⟩
  obtain ⟨chain, hchain, he⟩ := e.regrouped_appendAll?
  obtain ⟨chain', hchain', he'⟩ := e'.regrouped_appendAll?
  rw [h, hchain] at hchain'
  obtain rfl := Option.some.inj hchain'
  exact he.trans he'.symm

/-! ## The printed array -/

/-- A single leaf is written without a list around it. -/
theorem aliasTokens_of_leaf {leaf : AliasExpr} (h : ∀ left right, leaf ≠ .append left right) :
    Emit.aliasTokens leaf = Emit.aliasLeaf leaf := by
  cases leaf with
  | append left right => exact absurd rfl (h left right)
  | _ => rfl

/-- The elements of the array are printed as they would be alone. -/
theorem aliasTokens_append (left right : AliasExpr) :
    Emit.aliasTokens (.append left right) =
      .group .bracket (Emit.commaSeparated
        ((append left right).operands.map Emit.aliasTokens)) :: Emit.methodCall "concat" := by
  have hleaves : (append left right).operands.map Emit.aliasTokens =
      (append left right).operands.map Emit.aliasLeaf :=
    List.map_congr_left fun leaf hleaf => aliasTokens_of_leaf (ne_append_of_mem_operands hleaf)
  rw [hleaves]
  rfl

/-- An append has more than one leaf. -/
theorem operands_append_ne_singleton (left right leaf : AliasExpr) :
    (append left right).operands ≠ [leaf] := by
  intro h
  have hlength := congrArg List.length h
  have hleft := List.length_pos_of_ne_nil left.operands_ne_nil
  have hright := List.length_pos_of_ne_nil right.operands_ne_nil
  rw [operands, List.length_append, List.length_singleton] at hlength
  omega

/-- The leaves decide what is printed. -/
theorem aliasTokens_eq_of_operands {e e' : AliasExpr} (h : e'.operands = e.operands) :
    Emit.aliasTokens e' = Emit.aliasTokens e := by
  cases e with
  | append left right =>
    cases e' with
    | append left' right' => rw [aliasTokens_append, aliasTokens_append, h]
    | _ => exact absurd h.symm (operands_append_ne_singleton left right _)
  | _ =>
    cases e' with
    | append left right => exact absurd h (operands_append_ne_singleton left right _)
    | _ => exact congrArg Emit.aliasTokens (List.singleton_inj.mp h)

end AliasExpr

/-! ## Calls of a method -/

namespace Token

mutual

/-- How often a method is called without arguments inside of a token. -/
def callsInside (method : String) : Token → Nat
  | .group _ body => calls method body
  | _ => 0

/-- How often a method is called without arguments in a sequence of tokens. -/
def calls (method : String) : List Token → Nat
  | .punct '.' _ :: .ident name :: .group .paren [] :: rest =>
    calls method rest + if name.text = method then 1 else 0
  | token :: rest => calls method rest + callsInside method token
  | [] => 0

end

/-- Tokens that do not call a method, whatever follows them. -/
def CallsNone (method : String) (tokens : List Token) : Prop :=
  ∀ rest, calls method (tokens ++ rest) = calls method rest

theorem CallsNone.calls_eq {method : String} {tokens : List Token} (h : CallsNone method tokens) :
    calls method tokens = 0 := by
  have hnil := h []
  rwa [List.append_nil, calls] at hnil

/-- Parts without a call of a method have none with commas between them either. -/
theorem CallsNone.commaSeparated {method : String} {parts : List (List Token)}
    (h : ∀ part ∈ parts, CallsNone method part) :
    calls method (Emit.commaSeparated parts) = 0 := by
  induction parts with
  | nil => rfl
  | cons part parts ih =>
    obtain ⟨hpart, hparts⟩ := List.forall_mem_cons.mp h
    cases parts with
    | nil => exact hpart.calls_eq ▸ congrArg (calls method) List.intercalate_singleton
    | cons next parts =>
      have hcomma : ∀ rest, calls method (.punct ',' false :: rest) = calls method rest :=
        fun rest => rfl
      rw [Source.commaSeparated_cons_cons, hpart, hcomma, ih hparts]

end Token

namespace AliasExpr

open Token (CallsNone calls)

/-- A leaf is printed without a concatenation, also if fields are called so. -/
theorem aliasLeaf_callsNone {leaf : AliasExpr} (h : ∀ left right, leaf ≠ .append left right) :
    CallsNone "concat" (Emit.aliasLeaf leaf) := by
  cases leaf with
  | empty => exact fun rest => rfl
  | seq fields =>
    intro rest
    have hfields : calls "concat" (Emit.commaSeparated
        (fields.map fun field => Emit.selfField field ++ Emit.methodCall "clone")) = 0 := by
      refine CallsNone.commaSeparated fun part hpart => ?_
      obtain ⟨field, -, rfl⟩ := List.mem_map.mp hpart
      exact fun rest => rfl
    exact congrArg (calls "concat" rest + ·) hfields
  | orEmpty field => exact fun rest => rfl
  | append left right => exact absurd rfl (h left right)

/-- An append is printed with one concatenation. -/
theorem calls_concat_append (left right : AliasExpr) :
    calls "concat" (Emit.aliasTokens (.append left right)) = 1 := by
  have hleaves : calls "concat" (Emit.commaSeparated
      ((append left right).operands.map Emit.aliasLeaf)) = 0 := by
    refine CallsNone.commaSeparated fun part hpart => ?_
    obtain ⟨leaf, hleaf, rfl⟩ := List.mem_map.mp hpart
    exact aliasLeaf_callsNone (ne_append_of_mem_operands hleaf)
  exact congrArg (1 + ·) hleaves

end AliasExpr

/-! ## The value of printed expressions -/

namespace Accessor

def isComma : Token → Bool
  | .punct ',' _ => true
  | _ => false

def elements (body : List Token) : List (List Token) :=
  if body.isEmpty then [] else body.splitOnP isComma

/-- The value of a printed clone of a field that holds a name. -/
def printedName? (values : FieldValues) : List Token → Option String
  | [.ident ⟨"self"⟩, .punct '.' _, .ident field, .punct '.' _, .ident ⟨"clone"⟩,
      .group .paren []] => some (values.single field)
  | _ => none

/-- The value of a printed expression for a list of names without a concatenation. -/
def printedLeaf? (values : FieldValues) : List Token → Option (List String)
  | [.ident ⟨"Vec"⟩, .punct ':' _, .punct ':' _, .ident ⟨"new"⟩, .group .paren []] => some []
  | [.ident ⟨"vec"⟩, .punct '!' _, .group .bracket body] =>
    (elements body).mapM (printedName? values)
  | [.ident ⟨"self"⟩, .punct '.' _, .ident field, .punct '.' _, .ident ⟨"clone"⟩,
      .group .paren [], .punct '.' _, .ident ⟨"unwrap_or_default"⟩, .group .paren []] =>
    some ((values.list field).getD [])
  | _ => none

/-- The value of a printed expression for a list of names: of one that concatenates an array of
others, or of one without a concatenation. -/
def printed? (values : FieldValues) : List Token → Option (List String)
  | [.group .bracket body, .punct '.' _, .ident ⟨"concat"⟩, .group .paren []] =>
    ((elements body).mapM (printedLeaf? values)).map List.flatten
  | tokens => printedLeaf? values tokens

/-- Parts without commas are found again between the commas. -/
theorem splitOnP_commaSeparated {part : List Token} {parts : List (List Token)}
    (h : ∀ p ∈ part :: parts, ∀ token ∈ p, isComma token = false) :
    (Emit.commaSeparated (part :: parts)).splitOnP isComma = part :: parts := by
  induction parts generalizing part with
  | nil =>
    rw [Emit.commaSeparated, List.intercalate_singleton]
    exact List.splitOnP_eq_singleton (h part List.mem_cons_self)
  | cons next parts ih =>
    obtain ⟨hpart, hparts⟩ := List.forall_mem_cons.mp h
    rw [Source.commaSeparated_cons_cons, List.splitOnP_append_cons_of_forall_mem hpart _ rfl,
      ih hparts]

theorem commaSeparated_ne_nil {part : List Token} (h : part ≠ []) (parts : List (List Token)) :
    Emit.commaSeparated (part :: parts) ≠ [] := by
  cases parts with
  | nil => exact fun heq => h (List.intercalate_singleton.symm.trans heq)
  | cons next parts =>
    rw [Source.commaSeparated_cons_cons]
    exact List.append_ne_nil_of_left_ne_nil h _

/-- What is written with commas between its parts has these parts as its elements. -/
theorem elements_commaSeparated {parts : List (List Token)}
    (h : ∀ part ∈ parts, part ≠ [] ∧ ∀ token ∈ part, isComma token = false) :
    elements (Emit.commaSeparated parts) = parts := by
  cases parts with
  | nil => rfl
  | cons part parts =>
    have hne := commaSeparated_ne_nil (h part List.mem_cons_self).1 parts
    rw [elements, if_neg (by simpa using hne), splitOnP_commaSeparated fun p hp => (h p hp).2]

theorem mapM_map_eq_some {α β γ : Type} {f : β → Option γ} {g : α → β} {v : α → γ} {as : List α}
    (h : ∀ a ∈ as, f (g a) = some (v a)) : (as.map g).mapM f = some (as.map v) := by
  induction as with
  | nil => rfl
  | cons a as ih =>
    obtain ⟨ha, has⟩ := List.forall_mem_cons.mp h
    rw [List.map_cons, List.mapM_cons, ha, ih has]
    rfl

/-- The elements of a list of cloned fields are the clones. -/
theorem elements_clonedFields (fields : List Ident) :
    elements (Emit.commaSeparated
        (fields.map fun field => Emit.selfField field ++ Emit.methodCall "clone")) =
      fields.map fun field => Emit.selfField field ++ Emit.methodCall "clone" := by
  refine elements_commaSeparated fun part hpart => ?_
  obtain ⟨field, -, rfl⟩ := List.mem_map.mp hpart
  exact ⟨List.cons_ne_nil _ _, by simp [Emit.selfField, Emit.methodCall, Emit.inside,
    Token.operator, Token.operatorChars, Token.word, isComma]⟩

variable (values : FieldValues)

/-- The tokens of a leaf have the value of the leaf. -/
theorem printedLeaf?_aliasLeaf {leaf : AliasExpr}
    (h : ∀ left right, leaf ≠ .append left right) :
    printedLeaf? values (Emit.aliasLeaf leaf) = some (leaf.value values.single values.list) := by
  cases leaf with
  | empty => rfl
  | seq fields =>
    have hnames : (elements (Emit.commaSeparated (fields.map fun field =>
        Emit.selfField field ++ Emit.methodCall "clone"))).mapM (printedName? values) =
          some (fields.map values.single) := by
      rw [elements_clonedFields]
      exact mapM_map_eq_some fun field _ => rfl
    exact hnames
  | orEmpty field => rfl
  | append left right => exact absurd rfl (h left right)

/-- No comma of a leaf stands outside of brackets. -/
theorem aliasLeaf_noComma {leaf : AliasExpr} (h : ∀ left right, leaf ≠ .append left right) :
    ∀ token ∈ Emit.aliasLeaf leaf, isComma token = false := by
  cases leaf with
  | append left right => exact absurd rfl (h left right)
  | _ => simp [Emit.aliasLeaf, Emit.selfField, Emit.methodCall, Emit.inside, Emit.pathTo,
      Token.operator, Token.operatorChars, Token.word, isComma, List.intercalate]

/-- What is printed for an alias expression has the value of its leaves in order. -/
theorem printed?_aliasTokens (e : AliasExpr) :
    printed? values (Emit.aliasTokens e) =
      some (e.operands.flatMap (·.value values.single values.list)) := by
  have hleaf : (∀ left right, e ≠ .append left right) →
      printedLeaf? values (Emit.aliasLeaf e) =
        some ([e].flatMap (·.value values.single values.list)) := by
    intro h
    rw [printedLeaf?_aliasLeaf values h, List.flatMap_singleton]
  cases e with
  | append left right =>
    -- The commas of the array are told from those inside of its leaves, which stand in brackets.
    have helements : elements (Emit.commaSeparated
        ((AliasExpr.append left right).operands.map Emit.aliasLeaf)) =
          (AliasExpr.append left right).operands.map Emit.aliasLeaf := by
      refine elements_commaSeparated fun part hpart => ?_
      obtain ⟨leaf, hleaf, rfl⟩ := List.mem_map.mp hpart
      have hne := AliasExpr.ne_append_of_mem_operands hleaf
      exact ⟨Source.aliasLeaf_ne_nil hne, aliasLeaf_noComma hne⟩
    have hvalues : ((elements (Emit.commaSeparated
        ((AliasExpr.append left right).operands.map Emit.aliasLeaf))).mapM
          (printedLeaf? values)).map List.flatten =
        some ((AliasExpr.append left right).operands.flatMap
          (·.value values.single values.list)) := by
      rw [helements, mapM_map_eq_some fun leaf hleaf =>
        printedLeaf?_aliasLeaf values (AliasExpr.ne_append_of_mem_operands hleaf)]
      rfl
    exact hvalues
  | empty => exact hleaf nofun
  | seq fields => exact hleaf nofun
  | orEmpty field => exact hleaf nofun

end Accessor

namespace AliasExpr

/-- An alias expression is flattened into its leaves, each in its place from left to right. Regrouping
its appends gives just the expressions with the same leaves, and these are printed alike: an append
is one array of the leaves, each as it is printed alone, that is concatenated once. What is printed
has the value of the leaves in order, which is that of the expression, and it is read back as an
expression with this value where every field has a name that is no keyword. -/
theorem printed_from_leaves (e : AliasExpr) :
    (∀ leaf ∈ e.operands, ∀ left right, leaf ≠ .append left right) ∧
    (∃ places : List (List Side), places.Pairwise Before ∧
      (∀ place, place ∈ places ↔
        ∃ leaf, e.part? place = some leaf ∧ ∀ left right, leaf ≠ .append left right) ∧
      places.map e.part? = e.operands.map some) ∧
    (∀ other, Regrouped e other ↔ other.operands = e.operands) ∧
    (∀ other, Regrouped e other → Emit.aliasTokens other = Emit.aliasTokens e) ∧
    (∀ left right, e = .append left right →
      Emit.aliasTokens e = .group .bracket
        (Emit.commaSeparated (e.operands.map Emit.aliasTokens)) :: Emit.methodCall "concat" ∧
      Token.calls "concat" (Emit.aliasTokens e) = 1) ∧
    (∀ values : Accessor.FieldValues,
      Accessor.printed? values (Emit.aliasTokens e) =
        some (e.operands.flatMap (·.value values.single values.list)) ∧
      e.operands.flatMap (·.value values.single values.list) =
        e.value values.single values.list) ∧
    ((∀ field ∈ e.fields, Source.isKeyword field = false) →
      ∃ accessor, Source.readExpr? (Emit.aliasTokens e) =
          some ⟨accessor, Emit.aliasTokens e⟩ ∧
        ∀ values : Accessor.FieldValues, Accessor.names? values accessor =
          some (e.value values.single values.list)) := by
  refine ⟨fun leaf hleaf => ne_append_of_mem_operands hleaf,
    ⟨e.leafPlaces, e.leafPlaces_pairwise, fun place => mem_leafPlaces_iff, part?_leafPlaces e⟩,
    fun other => regrouped_iff, fun other h => aliasTokens_eq_of_operands h.operands_eq.symm, ?_,
    fun values => ⟨Accessor.printed?_aliasTokens values e,
      (e.value_eq_flatMap_operands values.single values.list).symm⟩, ?_⟩
  · rintro left right rfl
    exact ⟨aliasTokens_append left right, calls_concat_append left right⟩
  · exact fun hfields => ⟨_, Source.readExpr?_aliasTokens hfields,
      fun values => Accessor.names?_aliasNode values hfields⟩

/-- Leaves without names stay in the array, and a field may be called like the method that
concatenates it. -/
theorem printed_with_empty_leaves :
    Emit.aliasTokens (.append (.append (.append (.seq []) (.orEmpty ⟨"ys"⟩)) .empty)
        (.seq [⟨"x"⟩, ⟨"concat"⟩])) =
      Emit.aliasTokens (.append (.seq []) (.append (.orEmpty ⟨"ys"⟩)
        (.append .empty (.seq [⟨"x"⟩, ⟨"concat"⟩])))) ∧
    ∃ accessor, Source.readExpr? (Emit.aliasTokens (.append (.seq []) (.append (.orEmpty ⟨"ys"⟩)
        (.append .empty (.seq [⟨"x"⟩, ⟨"concat"⟩]))))) = some accessor ∧
      Accessor.names? ⟨Ident.text, fun _ => some ["y", "z"]⟩ accessor.value =
        some ["y", "z", "x", "concat"] := by
  obtain ⟨-, -, hregrouped, hprinted, -, -, hread⟩ := printed_from_leaves
    (.append (.seq []) (.append (.orEmpty ⟨"ys"⟩) (.append .empty (.seq [⟨"x"⟩, ⟨"concat"⟩]))))
  obtain ⟨accessor, haccessor, hvalue⟩ := hread (by decide)
  exact ⟨hprinted _ ((hregrouped _).mpr rfl), _, haccessor, hvalue _⟩

end AliasExpr

end ActionUnits
