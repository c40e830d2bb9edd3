import ActionUnits.Proofs.Outcome
import ActionUnits.Unit.Synthesis

/-! # What a unit was read from

Inversion of synthesis: a unit that was read is made of fragments that were read,
one for each import, definition and parameter, in order.
-/

namespace ActionUnits

/-- Related lists have related elements at each index. -/
theorem forall₂_getElem? {α β : Type} {R : α → β → Prop} {as : List α} {bs : List β}
    (h : List.Forall₂ R as bs) {i : Nat} {a : α} (ha : as[i]? = some a) :
    ∃ b, bs[i]? = some b ∧ R a b := by
  obtain ⟨hi, rfl⟩ := List.getElem?_eq_some_iff.mp ha
  have hi' : i < bs.length := h.length_eq ▸ hi
  exact ⟨bs[i], List.getElem?_eq_getElem hi', h.get hi hi'⟩

/-- Each element of the second list is related to one of the first. -/
theorem forall₂_mem_right {α β : Type} {R : α → β → Prop} {as : List α} {bs : List β}
    (h : List.Forall₂ R as bs) {b : β} (hb : b ∈ bs) : ∃ a ∈ as, R a b := by
  obtain ⟨i, hi⟩ := List.getElem?_of_mem hb
  obtain ⟨a, ha, hR⟩ := forall₂_getElem? h.flip hi
  exact ⟨a, List.mem_of_getElem? ha, hR⟩

namespace Synthesis

theorem source_readIdent_eq_ok_iff {tokens : List Token} {ident : Ident} :
    Source.readIdent tokens = .ok ident ↔
      tokens = [.ident ident] ∧ Source.isKeyword ident = false := by
  unfold Source.readIdent
  split
  · simp
  next name rest =>
    cases hkeyword : Source.isKeyword name with
    | true =>
        constructor
        · intro h
          cases h
        · rintro ⟨h, hident⟩
          cases h
          rw [hkeyword] at hident
          cases hident
    | false =>
        cases rest with
        | nil =>
            constructor
            · intro h
              cases h
              exact ⟨rfl, hkeyword⟩
            · rintro ⟨h, -⟩
              cases h
              rfl
        | cons token rest => simp
  next hnot =>
    constructor
    · intro h
      cases h
    · rintro ⟨h, -⟩
      cases h
      exact (hnot ident rfl).elim

/-- A unit is made exactly if each of its parts is read. -/
theorem unit_eq_ok_iff {set : ActionSet} {module : ModuleDef} {name : String}
    {unit : SourceUnit} :
    Synthesis.unit set module name = .ok unit ↔
      ∃ qualifier imports dataset classes registry companion,
        package module = .ok qualifier ∧
        (set.imports ++ module.imports).mapM (importDecl name) = .ok imports ∧
        datasetType module = .ok dataset ∧
        set.definitions.mapM (classDecl dataset) = .ok classes ∧
        unitNames name = .ok (registry, companion) ∧
        unit = ⟨name, qualifier, imports, companion, classes,
          .ofClasses registry companion dataset classes⟩ := by
  unfold Synthesis.unit
  constructor
  · intro h
    -- The parts are read one after the other, and the first one that fails is reported.
    cases hpackage : package module with
    | error e => rw [hpackage] at h; cases h
    | ok qualifier =>
        cases himports : (set.imports ++ module.imports).mapM (importDecl name) with
        | error e => rw [hpackage, himports] at h; cases h
        | ok imports =>
            cases hdataset : datasetType module with
            | error e => rw [hpackage, himports, hdataset] at h; cases h
            | ok dataset =>
                rw [hpackage, himports, hdataset] at h
                simp only [bind, Except.bind] at h
                cases hclasses : set.definitions.mapM (classDecl dataset) with
                | error e => rw [hclasses] at h; cases h
                | ok classes =>
                    rw [hclasses] at h
                    cases hnames : unitNames name with
                    | error e => rw [hnames] at h; cases h
                    | ok names =>
                        rw [hnames] at h
                        exact ⟨qualifier, imports, dataset, classes, names.1, names.2, rfl, rfl,
                          rfl, hclasses, rfl, (Except.ok.inj h).symm⟩
  · rintro ⟨qualifier, imports, dataset, classes, registry, companion, hpackage, himports,
      hdataset, hclasses, hnames, rfl⟩
    simp only [hpackage, himports, hdataset, hclasses, hnames, bind, Except.bind]
    rfl

/-- A type is made exactly if its name, its fields, its body and its aliases are read. -/
theorem classDecl_eq_ok_iff {dataset : Source.Fragment Source.Node} {action : Action}
    {decl : ClassDecl} :
    classDecl dataset action = .ok decl ↔
      ∃ ident fields body aliases,
        readIdent .className action.id action.className = .ok ident ∧
        action.params.mapM (field action.id) = .ok fields ∧
        readFragment Source.readBlock? .expression action.id action.expr
          ("\x7b\n" ++ action.expr ++ "\n\x7d") = .ok body ∧
        inputAliases action = .ok aliases ∧
        decl = ⟨ident, action.id, if action.isMultiOut then .multi else .single, dataset, fields,
          body, aliases, action.description⟩ := by
  unfold classDecl
  constructor
  · intro h
    cases hident : readIdent .className action.id action.className with
    | error e => rw [hident] at h; cases h
    | ok ident =>
        cases hfields : action.params.mapM (field action.id) with
        | error e => rw [hident, hfields] at h; cases h
        | ok fields =>
            cases hbody : readFragment Source.readBlock? .expression action.id action.expr
                ("\x7b\n" ++ action.expr ++ "\n\x7d") with
            | error e => rw [hident, hfields, hbody] at h; cases h
            | ok body =>
                cases haliases : inputAliases action with
                | error e => rw [hident, hfields, hbody, haliases] at h; cases h
                | ok aliases =>
                    rw [hident, hfields, hbody, haliases] at h
                    exact ⟨ident, fields, body, aliases, rfl, rfl, rfl, rfl,
                      (Except.ok.inj h).symm⟩
  · rintro ⟨ident, fields, body, aliases, hident, hfields, hbody, haliases, rfl⟩
    simp only [hident, hfields, hbody, haliases, bind, Except.bind]
    rfl

/-- A fragment is read exactly if its text lexes and its rule takes all tokens. -/
theorem readFragment_eq_ok_iff {α : Type} {rule : List Token → Option (Source.Fragment α)}
    {kind : FragmentKind} {owner source text : String} {fragment : Source.Fragment α} :
    readFragment rule kind owner source text = .ok fragment ↔
      ∃ tokens, Lexer.lex? text = some tokens ∧ rule tokens = some fragment := by
  unfold readFragment
  rw [← Option.bind_eq_some_iff, ← Option.bind_eq_bind]
  cases Lexer.lex? text >>= rule with
  | none => simp
  | some other => simp

/-- A text is read as an identifier if that is its only token, and no keyword. -/
theorem readIdent_eq_ok_iff {kind : FragmentKind} {owner text : String} {ident : Ident} :
    readIdent kind owner text = .ok ident ↔
      Lexer.lex? text = some [.ident ident] ∧ Source.isKeyword ident = false := by
  unfold readIdent
  cases Lexer.lex? text with
  | none => simp [Except.mapError]
  | some tokens =>
      rw [Option.some.injEq, ← source_readIdent_eq_ok_iff]
      dsimp only
      cases Source.readIdent tokens <;> simp [Except.mapError]

/-- Both names of a unit were read. -/
theorem readIdent_of_unitNames {name : String} {registry companion : Ident}
    (h : unitNames name = .ok (registry, companion)) :
    readIdent .className name name = .ok registry ∧
      readIdent .className name (String.ofList (Text.snake name.toList)) = .ok companion := by
  simp only [unitNames, bind_eq_ok_iff] at h
  obtain ⟨first, hregistry, second, hcompanion, h⟩ := h
  split at h
  · cases h
  · cases h
    exact ⟨hregistry, hcompanion⟩

end Synthesis

end ActionUnits
