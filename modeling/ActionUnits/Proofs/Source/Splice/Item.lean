import ActionUnits.Proofs.Imports
import ActionUnits.Proofs.Source.Splice.Block

/-! # Items of generated units

An import was read as an item with a visibility and no attributes, and is one again
wherever items stand. Generated items are read from their heads: attributes, a
visibility, a keyword and a name, then the fields of a struct.
-/

namespace ActionUnits.Source

variable {tokens u v rest body : List Token} {e f node : Node} {name : Ident}

/-! ## Attributes -/

theorem literal_reads_grammar (text : String) :
    ReadsElement (grammar (.expr true)) [.literal text] (.literal text) := by
  refine ⟨List.cons_ne_nil _ _, fun rest written hrest => ?_⟩
  rw [grammar_apply_eq (.expr true) (Nat.le_add_right _ 2)]
  exact expr_literal _ text written hrest

/-- The tree of an attribute that documents something. -/
def docNode (inner : Bool) (text : String) : Node :=
  .attrValue inner ⟨false, [⟨"doc"⟩]⟩ (.literal (Text.Quoted.encode text))

/-- A line of documentation is read as one attribute. -/
theorem doc_reads (inner : Bool) (text : String) :
    ReadsElement (metaItem grammar inner) (Emit.docContent text) (docNode inner text) :=
  setting_reads (by decide) (literal_reads_grammar _)

/-- Lines of documentation are read as one attribute each. -/
theorem docs_read (texts : List String) : List.Forall₂ (ReadsElement (metaItem grammar false))
    (texts.map Emit.docContent) (texts.map (docNode false)) := by
  rw [List.forall₂_map_left_iff, List.forall₂_map_right_iff, List.forall₂_same]
  exact fun text _ => doc_reads false text

/-- The documentation of a file is read in front of its items. -/
theorem innerAttrs_reads (texts : List String) (hrest : isInnerAttr rest = false) :
    Reads (innerAttrs grammar) (texts.flatMap (Emit.docAttr true) ++ rest)
      (texts.map (docNode true)) rest := by
  induction texts with
  | nil => exact .many_nil hrest
  | cons text texts ih =>
      have hcontent : Reads (metaItem grammar true) (Emit.docContent text)
          (docNode true text) [] := by
        have hread := (doc_reads true text).2 []
        rw [List.append_nil] at hread
        exact .of_eq fun z => hread z (.inl rfl)
      rw [List.flatMap_cons, List.append_assoc]
      refine .many_cons rfl ?_ (length_lt_append (List.cons_ne_nil _ _) _) ih
      exact (Reads.sign rfl _ _).bind ((Reads.sign rfl _ _).bind (.group hcontent))

/-! ## Heads of items -/

/-- An item is read behind its attributes. -/
theorem item_reads {contents : List (List Token)} {attrs : List Node}
    (hattrs : List.Forall₂ (ReadsElement (metaItem grammar false)) contents attrs)
    (hstop : isOp "#" u = false)
    (h : ∀ start, Reads (restOfItem grammar start attrs) u node rest) :
    Reads (grammar .item) (Emit.attributes contents ++ u) node rest :=
  .rule (.get fun start _ => Reads.bind (.of_eq fun _ => outerAttrs_reads hattrs hstop) (h start))

/-- An item without attributes. -/
theorem bareItem_reads (hstop : isOp "#" u = false)
    (h : ∀ start, Reads (restOfItem grammar start []) u node rest) :
    Reads (grammar .item) u node rest :=
  .rule (.get fun start _ => (Reads.many_nil hstop).bind (h start))

theorem finish_reads (start : Cursor) (attrs : List Node) (vis : Visibility) (isDefault : Bool)
    (node : Node) (u : List Token) :
    Reads (finish start attrs (.node [] vis isDefault node)) u
      (.item attrs vis isDefault node) u := by
  have hread : Reads (finish start attrs (.node [] vis isDefault node)) u
      (.item (attrs ++ []) vis isDefault node) u := .pure _ _
  rwa [List.append_nil] at hread

/-- An item without attributes inside of it. -/
theorem restOfItem_reads {vis : Visibility} (start : Cursor) (attrs : List Node)
    (hvis : Reads visibility u vis v)
    (hkind : Reads (itemKind grammar vis) v (.node [] vis false node) rest) :
    Reads (restOfItem grammar start attrs) u (.item attrs vis false node) rest :=
  hvis.bind (hkind.bind (finish_reads _ _ _ _ _ _))

theorem visibility_reads_none (h : isWord "pub" u = false) : Reads visibility u .inherited u :=
  (Reads.word?_no h).bind (.pure _ _)

theorem visibility_reads_pub (h : isRestricted u = false) :
    Reads visibility (.word "pub" :: u) .everywhere u :=
  (Reads.word?_yes "pub" u).bind (.no h (.pure _ _))

/-- The word `use` makes an item an import. -/
theorem itemKind_reads_use (vis : Visibility)
    (h : Reads (useItem true) (.word "use" :: u) (some e) rest) :
    Reads (itemKind grammar vis) (.word "use" :: u) (.node [] vis false e) rest := by
  have hextern : isWord "extern" (.word "use" :: u) = false := rfl
  exact .no rfl (.no hextern (.yes rfl (h.bind (.pure _ _))))

theorem itemKind_struct (vis : Visibility) (z : List Token) :
    itemKind grammar vis ⟨.word "struct" :: u, z⟩ = (structItem grammar >>= fun node =>
      pure (.node [] vis false node)) ⟨.word "struct" :: u, z⟩ := rfl

theorem itemKind_mod (vis : Visibility) (z : List Token) :
    itemKind grammar vis ⟨.word "mod" :: u, z⟩ = moduleItem grammar vis ⟨.word "mod" :: u, z⟩ := rfl

theorem itemKind_impl (vis : Visibility) (z : List Token) :
    itemKind grammar vis ⟨.word "impl" :: u, z⟩ =
      implementation grammar vis ⟨.word "impl" :: u, z⟩ := rfl

/-- The items in the braces of a module or of an implementation. -/
theorem bracedItems_read {p : Parser Node} {parts : List (List Token)} {items : List Node}
    (hattr : isInnerAttr parts.flatten = false) (hitems : List.Forall₂ (Stands p) parts items) :
    Reads (group .brace do
      let attrs ← innerAttrs grammar
      return (attrs, ← untilEnd p)) (.group .brace parts.flatten :: rest) ([], items) rest :=
  .group ((Reads.many_nil hattr).bind ((untilEnd_reads hitems).map fun items => ([], items)))

theorem params_read_none (h : isOp "<" u = false) : Reads (genericParams grammar) u [] u :=
  .no h (.pure _ _)

theorem where_reads_none (h : isWord "where" u = false) : Reads (whereClause grammar) u [] u :=
  .no h (.pure _ _)

/-! ## Imports -/

/-- The keyword of an import is read as it was written. -/
theorem exists_of_keyword_use (h : Keyword "use" u v) : ∃ more, v = .word "use" :: more := by
  obtain ⟨huse, keyword, more, after, rfl, hafter, -⟩ := h
  obtain rfl : keyword = ⟨"use"⟩ := by
    have heq : keyword.text = "use" := eq_of_beq huse
    rw [← heq]
  exact ⟨after, hafter⟩

/-- The keyword of an import does not restrict the visibility in front of it. -/
theorem notRestricted_of_keyword (h : Keyword "use" u v) : Absent isRestricted u v := by
  refine Lead.notRestricted h.lead ?_
  rw [kind_of_isWord h.1]
  exact (by decide : Kind.word ⟨"use"⟩ ≠ .group .paren)

/-- An import that was read on its own is an item wherever it stands. -/
theorem import_stands {fragment : Fragment Import}
    (h : readImport? (.ident name :: tokens) = some fragment) :
    Stands (grammar .item) fragment.tokens fragment.value.node := by
  obtain ⟨vis, middle, out, e, written, hvis, huse, rfl⟩ := readImport?_eq_some h
  -- The declaration is read again in front of anything, and the visibility in front of it.
  obtain ⟨visTokens, rfl, -, hvis⟩ := Replays.again (fun size =>
    (visibility_replays (m := .written) (P := Keyword "use") (fun _ _ hr => hr.lead)
      fun _ _ => notRestricted_of_keyword).smaller) hvis
  obtain ⟨useTokens, rfl, hleast, huse⟩ := Replays.again (fun size =>
    useItem_replays (m := .written) fun _ => rfl) huse
  have htokens : (useTokens.reverse ++ (visTokens.reverse ++ [])).reverse =
      visTokens ++ useTokens := by simp
  rw [htokens]
  refine ⟨List.append_ne_nil_of_right_ne_nil _ (List.ne_nil_of_length_pos hleast),
    fun rest => ?_⟩
  rw [List.append_assoc]
  obtain ⟨hkeyword, hdeclaration⟩ := huse rest trivial
  obtain ⟨hfirst, hvisible⟩ := hvis (useTokens ++ rest) hkeyword
  have hlead : Lead (.ident name :: tokens) (visTokens ++ (useTokens ++ rest)) := by
    cases hpub : isWord "pub" (.ident name :: tokens) with
    | true => exact hfirst.1 hpub
    | false => exact (hfirst.2 hpub).lead
  have hattr : isOp "#" (visTokens ++ (useTokens ++ rest)) = false :=
    (Stable.eq_of_lead hlead).symm
  obtain ⟨after, hafter⟩ := exists_of_keyword_use hkeyword
  rw [hafter] at hvisible hdeclaration hattr ⊢
  refine .rule (.get fun start _ => (Reads.many_nil hattr).bind (hvisible.bind ?_))
  exact (itemKind_reads_use vis hdeclaration).bind (.pure _ _)

/-! ## Imports of modules -/

/-- The tree of the import of everything that is below a path. -/
def globItem (path : UseTree → UseTree) : Node :=
  .item [] .inherited false (.useItem false (path .glob))

theorem useTree_reads_glob (depth : Nat) (roots : Bool) (u : List Token) :
    Reads (useTree (depth + 1) roots) (.punct '*' false :: u) (some .glob) u :=
  fun _ => ⟨_, rfl⟩

/-- An import tree goes on behind a name. -/
theorem useTree_reads_path {depth : Nat} {roots : Bool} {tree : UseTree}
    (hname : isUseName (.ident name :: .punct ':' true :: .punct ':' false :: u) = true)
    (h : Reads (useTree depth false) u (some tree) rest) :
    Reads (useTree (depth + 1) roots) (.ident name :: .punct ':' true :: .punct ':' false :: u)
      (some (.path name tree)) rest := by
  refine .yes hname ((Reads.anyWord name _).bind ((Reads.pathSeparator?_yes u).bind ?_))
  exact h.map (Option.map (UseTree.path name))

/-- An import without attributes and visibility is an item, in a module and in a block. -/
theorem useItem_reads {path : UseTree → UseTree} (hroot : isOp "::" u = false)
    (hlength : 2 ≤ u.length)
    (h : ∀ depth, Reads (useTree (depth + 3) true) u (some (path .glob)) (.punct ';' false :: rest))
    (start : Cursor) :
    Reads (restOfItem grammar start []) (.word "use" :: u) (globItem path) rest := by
  obtain ⟨depth, hdepth⟩ : ∃ depth, Token.sizeAll u + 1 = depth + 3 := by
    have hsize := Token.length_le_sizeAll u
    exact ⟨Token.sizeAll u - 2, by omega⟩
  have huse : Reads (useItem true) (.word "use" :: u) (some (.useItem false (path .glob)))
      rest := by
    refine (Reads.word "use" u).bind ((Reads.op?_no hroot).bind (.get fun c hc => ?_))
    rw [hc, hdepth]
    exact (h depth).bind ((Reads.sign rfl _ _).bind (.pure _ _))
  exact restOfItem_reads start [] (visibility_reads_none rfl) (itemKind_reads_use .inherited huse)

/-! ## Structs -/

/-- A public struct without parameters. -/
def structNode (attrs : List Node) (name : Ident) (fields : Node) : Node :=
  .item attrs .everywhere false (.structItem name (.generics [] []) fields)

theorem struct_reads {fields : Node} (h : Reads (structItem grammar) (.word "struct" :: u)
    (.structItem name (.generics [] []) fields) rest) (start : Cursor) (attrs : List Node) :
    Reads (restOfItem grammar start attrs) (.word "pub" :: .word "struct" :: u)
      (structNode attrs name fields) rest := by
  have hkind : Reads (itemKind grammar .everywhere) (.word "struct" :: u)
      (.node [] .everywhere false (.structItem name (.generics [] []) fields)) rest :=
    .congr (itemKind_struct .everywhere) (h.map (Found.node [] .everywhere false))
  exact restOfItem_reads start attrs (visibility_reads_pub rfl) hkind

/-- A struct without fields is read as an item. -/
theorem unitStruct_reads (hname : isKeyword name = false) (start : Cursor) (attrs : List Node) :
    Reads (restOfItem grammar start attrs)
      (.word "pub" :: .word "struct" :: .ident name :: .punct ';' false :: rest)
      (structNode attrs name .unitFields) rest := by
  refine struct_reads ((Reads.word "struct" _).bind ((Reads.ident hname _).bind ?_)) start attrs
  exact fun _ => ⟨_, rfl⟩

/-- A struct with named fields is read as an item. -/
theorem fieldStruct_reads {fields : List Node} (hname : isKeyword name = false)
    (h : Reads (commaList (namedField grammar)) body fields []) (start : Cursor)
    (attrs : List Node) :
    Reads (restOfItem grammar start attrs)
      (.word "pub" :: .word "struct" :: .ident name :: .group .brace body :: rest)
      (structNode attrs name (.namedFields fields)) rest := by
  refine struct_reads ((Reads.word "struct" _).bind ((Reads.ident hname _).bind ?_)) start attrs
  have hfields : Reads (namedFields grammar) (.group .brace body :: rest)
      (.namedFields fields) rest :=
    (Reads.group h).map Node.namedFields
  refine (params_read_none rfl).bind (.no rfl ((where_reads_none rfl).bind (.yes rfl ?_)))
  exact hfields.map (Node.structItem name (.generics [] []))

/-! ## Fields -/

/-- The tree of a field of a generated type. -/
def fieldNode (field : Field) : Node :=
  .fieldDecl (Emit.fieldNodes field) .everywhere (some field.ident) field.type.value

/-- A field ends at the comma after it. -/
theorem field_reads {field : Field} (hname : isKeyword field.ident = false)
    (htype : SpellsType field.type.tokens field.type.value) :
    Reads (namedField grammar) (Emit.fieldTokens field ++ .punct ',' false :: rest)
      (fieldNode field) (.punct ',' false :: rest) := by
  have htokens : Emit.fieldTokens field ++ .punct ',' false :: rest =
      Emit.attributes (Emit.fieldContents field) ++ .word "pub" :: .ident field.ident ::
        .punct ':' false :: (field.type.tokens ++ .punct ',' false :: rest) := by
    rw [Emit.fieldTokens_eq, List.append_assoc]
    rfl
  have hname' : isWord "_" (.ident field.ident :: .punct ':' false ::
      (field.type.tokens ++ .punct ',' false :: rest)) = false :=
    isWord_of_not_keyword hname (by decide)
  have htype' : Reads (grammar (.ty true)) (field.type.tokens ++ .punct ',' false :: rest)
      field.type.value (.punct ',' false :: rest) := htype.reads _ rfl
  rw [htokens]
  refine Reads.bind (.of_eq fun _ => outerAttrs_reads (Emit.fieldContents_read grammar field) rfl)
    ((visibility_reads_pub rfl).bind (.no hname' ((Reads.ident hname _).bind ?_)))
  exact (Reads.sign rfl _ _).bind
    (htype'.map (Node.fieldDecl (Emit.fieldNodes field) .everywhere (some field.ident)))

end ActionUnits.Source
