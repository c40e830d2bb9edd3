import ActionUnits.Proofs.Source.Splice.Item

/-! # The block of a registry

A registry lists a call for each entry, with the generated type as an argument in
angle brackets. The types come from the module that an import in the block names;
without entries there is no import.
-/

namespace ActionUnits.Source

open ActionUnits.Emit (commaSeparated entryTokens entryList)

variable {u v rest body : List Token} {a e f node : Node} {args : List Node} {name : Ident}

/-! ## Expressions -/

/-- No operator follows where an element ends. -/
theorem operators_reads_end (hrange : isRange e = false) (hrest : EndsElement rest) :
    Reads (operators grammar true .jump e) rest e rest := by
  refine .iterate_stop ?_
  rw [hrange]
  obtain rfl | ⟨more, rfl⟩ := hrest
  · exact fun z => ⟨z, rfl⟩
  · exact fun z => ⟨z, rfl⟩

/-- Tokens that start with no sign of a prefix operator. -/
structure BareStart (u : List Token) : Prop where
  attr : isOp "#" u = false
  reference : isOp "&" u = false
  star : isOp "*" u = false
  bang : isOp "!" u = false
  minus : isOp "-" u = false

/-- An expression without operators. -/
theorem expr_reads (hstart : BareStart u) (hatom : Reads (atom grammar true) u a v)
    (htrailers : Reads (trailers grammar a) v e rest) (hrange : isRange e = false)
    (hrest : EndsElement rest) : Reads (grammar (.expr true)) u e rest := by
  have hunary : Reads (grammar (.unary true)) u e rest := by
    refine .rule ((Reads.many_nil hstart.attr).bind ((Reads.op?_no hstart.reference).bind ?_))
    refine (Reads.op?_no hstart.star).bind ((Reads.op?_no hstart.bang).bind ?_)
    exact (Reads.op?_no hstart.minus).bind (hatom.bind (htrailers.map (Node.withAttrs [])))
  exact .rule (hunary.bind (operators_reads_end hrange hrest))

/-- An operand that starts with a name is a path, unless a hash sign follows the name. -/
theorem atom_reads_path (hname : isKeyword name = false) (hhash : isOp "#" u = false)
    (h : Reads (pathExpr grammar true) (.ident name :: u) e rest) :
    Reads (atom grammar true) (.ident name :: u) e rest := by
  have hword : ∀ text, keywords.contains text = true → isWord text (.ident name :: u) = false :=
    fun text htext => isWord_of_not_keyword hname htext
  have hliteral : isLiteral (.ident name :: u) = false := by
    change (isWord "true" (.ident name :: u) || isWord "false" (.ident name :: u)) = false
    rw [hword "true" (by decide), hword "false" (by decide)]
    rfl
  have hasync : isAsyncBlock (.ident name :: u) = false := by
    rw [isAsyncBlock, Peek.and, hword "async" (by decide), Bool.false_and]
  have htry : ((isWord "try").and (second (isGroup .brace))) (.ident name :: u) = false := by
    rw [Peek.and, hword "try" (by decide), Bool.false_and]
  have hclosure : isClosureStart (.ident name :: u) = false := by
    have hbar : isOp "|" (.ident name :: u) = false := rfl
    simp only [isClosureStart, anyOf, List.any_cons, List.any_nil, Peek.and, Peek.butNot, hbar,
      hword "move" (by decide), hword "for" (by decide), hword "const" (by decide),
      hword "static" (by decide), hword "async" (by decide), Bool.false_and, Bool.or_false]
  have hpath : isPathExprStart (.ident name :: u) = true :=
    Bool.or_eq_true_iff.mpr (.inl (isIdent_of_not_keyword hname))
  have hbuiltin : isBuiltinStart (.ident name :: u) = false := by
    change (_ && isOp "#" u) = false
    rw [hhash, Bool.and_false]
  exact .no hliteral (.no hasync (.no htry (.no hclosure (.no hbuiltin (.yes hpath h)))))

/-- Nothing is applied to an expression before a comma. -/
theorem trailers_reads_end (hrest : EndsElement rest) : Reads (trailers grammar e) rest e rest := by
  refine .iterate_stop ?_
  -- No point and no question mark follows, whether the expression is a range or not.
  generalize isRange e = range
  obtain rfl | ⟨more, rfl⟩ := hrest
  · cases range <;> exact fun z => ⟨z, rfl⟩
  · cases range <;> exact fun z => ⟨z, rfl⟩

/-- A call is read behind its function. -/
theorem trailers_reads_call (hargs : Reads (commaList (grammar (.expr true))) body args [])
    (hrest : EndsElement rest) :
    Reads (trailers grammar f) (.group .paren body :: rest) (.call f args) rest := by
  have hyes : isGroup .paren (.group .paren body :: rest) = true := rfl
  have hcall : Reads (group .paren (commaList (grammar (.expr true))) >>= fun args =>
      pure (some (Node.call f args))) (.group .paren body :: rest) (some (.call f args)) rest :=
    (Reads.group hargs).map fun args => some (Node.call f args)
  exact .iterate_next (.yes hyes hcall) (Nat.lt_succ_self _) (trailers_reads_end hrest)

/-- A call of a path is an expression. -/
theorem expr_reads_call (hstart : BareStart u)
    (hatom : Reads (atom grammar true) u f (.group .paren body :: rest))
    (hargs : Reads (commaList (grammar (.expr true))) body args []) (hrest : EndsElement rest) :
    Reads (grammar (.expr true)) u (.call f args) rest :=
  expr_reads hstart hatom (trailers_reads_call hargs hrest) rfl hrest

theorem commaList_reads_literal (text : String) :
    Reads (commaList (grammar (.expr true))) [.literal text] [.literal text] [] := by
  have hread := commaList_reads_between (p := grammar (.expr true)) (.cons (a := [.literal text])
    (b := .literal text) ⟨List.cons_ne_nil _ _, fun rest hrest => ?_⟩ .nil)
  · exact hread
  · exact .of_grammarTo fun n => .of_eq fun z => expr_literal (n + 2) text z hrest

/-! ## Entries -/

def entryNode (entry : RegistryEntry) : Node :=
  .call (.path false [.segment ⟨"NamedType"⟩ none,
      .segment ⟨"new"⟩ (some (.angleArguments [.ofIdent entry.ident]))])
    [.literal (Text.Quoted.encode entry.discriminator)]

/-- The second segment of the path of an entry, with its argument. -/
theorem newSegment_reads (hname : isKeyword name = false) :
    Reads (pathSegment grammar true)
      (.word "new" :: .punct ':' true :: .punct ':' false :: .punct '<' false ::
        ([.ident name] ++ .punct '>' false :: rest))
      (.segment ⟨"new"⟩ (some (.angleArguments [.ofIdent name]))) rest := by
  have hargs : Reads (grammar .angleArguments)
      (.punct '<' false :: [.ident name] ++ .punct '>' false :: rest)
      (.angleArguments [.ofIdent name]) rest := angleArguments_reads (spellsType_name hname)
  unfold pathSegment
  refine .no rfl (.no rfl ((Reads.ident (by decide) _).bind ?_))
  exact .no rfl (.yes rfl ((Reads.pathSeparator?_yes _).bind (hargs.map _)))

/-- The path of an entry ends in front of the parentheses of its call. -/
theorem entryPath_reads (hname : isKeyword name = false) :
    Reads (pathExpr grammar true)
      (.word "NamedType" :: .punct ':' true :: .punct ':' false :: .word "new" :: .punct ':' true ::
        .punct ':' false :: .punct '<' false ::
          ([.ident name] ++ .punct '>' false :: .group .paren body :: rest))
      (.path false [.segment ⟨"NamedType"⟩ none,
        .segment ⟨"new"⟩ (some (.angleArguments [.ofIdent name]))])
      (.group .paren body :: rest) := by
  have hsegment : Reads (pathSegment grammar true) (.word "new" :: .punct ':' true ::
      .punct ':' false :: .punct '<' false ::
        ([.ident name] ++ .punct '>' false :: .group .paren body :: rest))
      (.segment ⟨"new"⟩ (some (.angleArguments [.ofIdent name]))) (.group .paren body :: rest) :=
    newSegment_reads hname
  have hround := (Reads.pathSeparator _).andThen hsegment
  have hmore : Reads (restOfPath grammar true) _ _ (.group .paren body :: rest) :=
    .many_cons rfl hround (by simp only [List.length_cons, List.length_append]; omega)
      (.many_nil rfl)
  have hpath := hmore.map fun more => Node.path false (.segment ⟨"NamedType"⟩ none :: more)
  refine Reads.bind (.no rfl ((Reads.op?_no rfl).bind
    (.bind (a := .segment ⟨"NamedType"⟩ none) (fun z => ⟨_, rfl⟩) hpath))) ?_
  exact .no rfl (.no rfl (.pure _ _))

/-- An entry of the registry is read as an expression. -/
theorem entry_reads {entry : RegistryEntry} (hname : isKeyword entry.ident = false)
    (hrest : EndsElement rest) :
    Reads (grammar (.expr true)) (entryTokens entry ++ rest) (entryNode entry) rest := by
  have hpath : Reads (atom grammar true) (entryTokens entry ++ rest) _
      (.group .paren [.string entry.discriminator] :: rest) :=
    atom_reads_path (by decide) rfl (entryPath_reads hname)
  exact expr_reads_call ⟨rfl, rfl, rfl, rfl, rfl⟩ hpath (commaList_reads_literal _) hrest

/-! ## The list of entries -/

/-- An array is read element by element. -/
theorem array_reads {parts : List (List Token)} {es : List Node}
    (h : ReadElements (grammar (.expr true)) parts es) :
    Reads (arrayExpr grammar) (.group .bracket (commaSeparated parts) :: rest) (.array es)
      rest := by
  refine .group ?_
  cases h with
  | nil => exact fun z => ⟨z, rfl⟩
  | @cons part e parts es hpart hparts =>
      obtain ⟨hne, hread⟩ := hpart
      cases hparts with
      | nil =>
          have hsole : commaSeparated [part] = part := List.intercalate_singleton
          have hhere := hread [] (.inl rfl)
          have hmore : part.isEmpty = false := List.isEmpty_eq_false_iff.mpr hne
          rw [List.append_nil] at hhere
          rw [hsole]
          exact .no hmore (hhere.bind fun z => ⟨z, rfl⟩)
      | @cons next _ parts _ hnext hrest =>
          have hmore : ∀ rest, (part ++ Token.punct ',' false :: rest).isEmpty = false := by simp
          have hothers := commaList_reads_between (.cons hnext hrest)
          rw [commaSeparated_cons_cons]
          refine .no (hmore _) ((hread _ (.inr ⟨_, rfl⟩)).bind (.no rfl ?_))
          exact (Reads.sign?_yes rfl _ _).bind (hothers.map fun es => Node.array (e :: es))

/-- A call that makes a list of the elements of an array. -/
def listNode (elements : List Node) : Node :=
  .call (.path false [.segment ⟨"Vec"⟩ none, .segment ⟨"from"⟩ none]) [.array elements]

/-- The list of entries is read as the call that makes it. -/
theorem list_reads {parts : List (List Token)} {es : List Node}
    (h : ReadElements (grammar (.expr true)) parts es) :
    Reads (grammar (.expr true)) (Emit.pathTo ["Vec", "from"] ++
      Emit.inside .paren (Emit.inside .bracket (commaSeparated parts))) (listNode es) [] := by
  have harray : ∀ rest, EndsElement rest → Reads (grammar (.expr true))
      ([.group .bracket (commaSeparated parts)] ++ rest) (.array es) rest := by
    intro rest hrest
    exact expr_reads ⟨rfl, rfl, rfl, rfl, rfl⟩ (array_reads h) (trailers_reads_end hrest) rfl hrest
  have hargs := commaList_reads_between (.cons ⟨List.cons_ne_nil _ _, harray⟩ .nil)
  exact expr_reads_call ⟨rfl, rfl, rfl, rfl, rfl⟩ (fun z => ⟨_, rfl⟩) hargs (.inl rfl)

/-! ## The block -/

def entryBlock (registry : Registry) : Node :=
  match registry.entries with
  | [] => exprBlock (aliasNode .empty)
  | entries => .block [globItem fun tree => .path ⟨"self"⟩ (.path registry.companion tree),
      .exprStmt (listNode (entries.map entryNode)) false]

/-- The import of the companion is read in front of the entries. -/
theorem selfImport_reads (hname : isKeyword name = false) (start : Cursor) :
    Reads (restOfItem grammar start [])
      (.word "use" :: .word "self" :: .punct ':' true :: .punct ':' false :: .ident name ::
        .punct ':' true :: .punct ':' false :: .punct '*' false :: .punct ';' false :: rest)
      (globItem fun tree => .path ⟨"self"⟩ (.path name tree)) rest := by
  refine useItem_reads rfl (by simp) (fun depth => ?_) start
  refine useTree_reads_path rfl (useTree_reads_path ?_ (useTree_reads_glob _ _ _))
  exact Bool.or_eq_true_iff.mpr (.inl (isIdent_of_not_keyword hname))

theorem entryList_cons {registry : Registry} {entry : RegistryEntry} {entries : List RegistryEntry}
    (h : registry.entries = entry :: entries) :
    entryList registry = .word "use" :: .word "self" :: .punct ':' true :: .punct ':' false ::
      .ident registry.companion :: .punct ':' true :: .punct ':' false :: .punct '*' false ::
        .punct ';' false :: (Emit.pathTo ["Vec", "from"] ++ Emit.inside .paren
          (Emit.inside .bracket (commaSeparated ((entry :: entries).map entryTokens)))) := by
  rw [entryList, h]
  rfl

/-- An import is a statement. -/
theorem statement_reads_use (h : ∀ start, Reads (restOfItem grammar start []) (.word "use" :: u)
    node rest) : Reads (statement grammar) (.word "use" :: u) node rest := by
  refine .get fun start _ => .bind (a := []) (Reads.many_nil rfl) (.get fun c hc => ?_)
  have hcall : macroStart (.word "use" :: u) = .other := macroStart_of_keyword rfl _
  rw [hc, hcall]
  exact .no rfl (.yes rfl (h start))

/-- The body of the registry's method is read, with or without the import. -/
theorem entryBlock_reads {registry : Registry} (hcompanion : isKeyword registry.companion = false)
    (hnames : ∀ entry ∈ registry.entries, isKeyword entry.ident = false) :
    Reads (blockWithAttrs grammar) (.group .brace (entryList registry) :: rest)
      ([], entryBlock registry) rest := by
  unfold entryBlock
  cases hentries : registry.entries with
  | nil =>
      rw [entryList, hentries]
      have hnone : ∀ field ∈ AliasExpr.empty.fields, isKeyword field = false := by
        intro field hfield
        cases hfield
      have hblock : Reads (blockWithAttrs grammar)
          (.group .brace (Emit.aliasTokens .empty) :: rest)
          ([], exprBlock (aliasNode .empty)) rest :=
        block_reads_aliases hnone
      exact hblock
  | cons entry entries =>
      rw [hentries] at hnames
      have helements : ReadElements (grammar (.expr true)) ((entry :: entries).map entryTokens)
          ((entry :: entries).map entryNode) := by
        rw [ReadElements, List.forall₂_map_left_iff, List.forall₂_map_right_iff, List.forall₂_same]
        exact fun entry hentry => ⟨List.cons_ne_nil _ _, fun rest => entry_reads (hnames _ hentry)⟩
      have hlist := statements_reads_expr ⟨⟨rfl, rfl⟩, rfl, rfl, rfl, rfl, fun _ => rfl⟩
        (by intro attrs call hcall; cases hcall) (list_reads helements)
      rw [entryList_cons hentries]
      refine block_reads (.rule (Reads.map Node.block (.repeated_cons (statementRound_reads rfl rfl
        (statement_reads_use (selfImport_reads hcompanion)) rfl) ?_ hlist))) rfl
      simp only [List.length_cons]
      omega

end ActionUnits.Source
