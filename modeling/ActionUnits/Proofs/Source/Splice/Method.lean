import ActionUnits.Proofs.Source.Splice.Item

/-! # Methods and implementations of generated units

The methods of a generated unit borrow their receiver. The types in their heads
end where their bodies start, so each method is read up to its body, and the body
as a block. An implementation of a trait is read method by method.
-/

namespace ActionUnits.Source

variable {tokens u v rest body params : List Token} {e f node ty output : Node} {name : Ident}

/-! ## Types in the head of a method -/

/-- A borrow without a lifetime. -/
theorem reference_reads (hlifetime : isLifetime u = false) (hmut : isWord "mut" u = false)
    (h : Reads (grammar (.ty false)) u ty rest) :
    Reads (grammar (.ty true)) (.punct '&' false :: u) (.referenceType none false ty) rest := by
  have hborrow : Reads (type grammar true) (.punct '&' false :: u) (.referenceType none false ty)
      rest := by
    unfold type
    refine .get fun start _ => Reads.bind (.when?_no rfl) (.no rfl (.no rfl (.no rfl ?_)))
    refine (Reads.word?_no rfl).bind (.no rfl ((Reads.op?_no rfl).bind ?_))
    refine (Reads.sign?_yes rfl _ _).bind (.bind (.no hlifetime (.pure none _)) ?_)
    exact (Reads.word?_no hmut).bind (h.map (Node.referenceType none false))
  exact .rule hborrow

def textType : Node :=
  .referenceType (some ⟨"static"⟩) false (.ofIdent ⟨"str"⟩)

theorem textType_reads :
    Reads (grammar (.ty true)) (.punct '&' false :: .punct '\'' true :: .word "static" ::
      .word "str" :: .group .brace body :: rest) textType (.group .brace body :: rest) :=
  .of_grammarTo fun _ _ => ⟨_, rfl⟩

/-! ## Signatures -/

/-- The receiver of a method that borrows it. -/
def selfNode : Node :=
  .receiver [] (some none) false none

/-- The inputs of an action, as the parameter of a method. -/
def inputsNode (dataset : Node) : Node :=
  .typedPattern [] (.bindingPattern false false ⟨"inputs"⟩ none)
    (.referenceType none false (appliedNode ⟨"Inputs"⟩ dataset))

/-- The receiver is read as a parameter. -/
theorem self_reads (hrest : EndsElement rest) : Reads (functionParam grammar)
    (.punct '&' false :: .word "self" :: rest) (false, selfNode) rest := by
  obtain rfl | ⟨more, rfl⟩ := hrest
  · exact fun _ => ⟨_, rfl⟩
  · exact fun _ => ⟨_, rfl⟩

/-- The parameter for the inputs is read with its type. -/
theorem inputs_reads (h : SpellsType tokens ty) (hrest : EndsElement rest) :
    Reads (functionParam grammar) (.word "inputs" :: .punct ':' false :: .punct '&' false ::
      .word "Inputs" :: .punct '<' false :: tokens ++ .punct '>' false :: rest)
      (false, inputsNode ty) rest := by
  have hends : goesOn rest = false ∧ isOp "+" rest = false := by
    obtain rfl | ⟨more, rfl⟩ := hrest
    · exact ⟨rfl, rfl⟩
    · exact ⟨rfl, rfl⟩
  have htype : Reads (grammar (.ty true)) (.punct '&' false :: .word "Inputs" ::
      .punct '<' false :: tokens ++ .punct '>' false :: rest)
      (.referenceType none false (appliedNode ⟨"Inputs"⟩ ty)) rest :=
    reference_reads rfl rfl (applied_reads (by decide) h hends.1 hends.2)
  have hpattern : Reads (grammar .singlePattern) (.word "inputs" :: .punct ':' false ::
      .punct '&' false :: .word "Inputs" :: .punct '<' false :: tokens ++ .punct '>' false :: rest)
      (.bindingPattern false false ⟨"inputs"⟩ none) (.punct ':' false :: .punct '&' false ::
        .word "Inputs" :: .punct '<' false :: tokens ++ .punct '>' false :: rest) :=
    .of_grammarTo fun _ _ => ⟨_, rfl⟩
  refine (Reads.many_nil rfl).bind ((Reads.op?_no rfl).bind (.no rfl
    (.no rfl (hpattern.bind ((Reads.sign rfl _ _).bind ?_)))))
  exact (Reads.op?_no rfl).bind (htype.map fun ty =>
    (false, Node.typedPattern [] (.bindingPattern false false ⟨"inputs"⟩ none) ty))

/-- Parameters of which none is the open end of the list. -/
def closedParams (nodes : List Node) : List (Bool × Node) :=
  nodes.map (Prod.mk false)

theorem all_dropLast_closedParams (nodes : List Node) :
    (closedParams nodes).dropLast.all (!·.1) = true := by
  refine List.all_eq_true.mpr fun input hinput => ?_
  obtain ⟨node, -, rfl⟩ := List.mem_map.mp (List.dropLast_subset _ hinput)
  rfl

theorem map_snd_closedParams (nodes : List Node) : (closedParams nodes).map Prod.snd = nodes := by
  rw [closedParams, List.map_map]
  exact List.map_id nodes

theorem getLast?_closedParams (nodes : List Node) :
    (closedParams nodes).getLast? = nodes.getLast?.map (Prod.mk false) :=
  List.getLast?_map

/-- The tree of the head of a method that borrows its receiver. -/
def headNode (name : Ident) (others : List Node) (output : Node) : Node :=
  .signature false false false .absent name (.generics [] []) (selfNode :: others) none
    (some output)

theorem methodHead_append (text : String) (params tokens rest : List Token) :
    Emit.methodHead text params tokens ++ rest = .word "fn" :: .ident ⟨text⟩ ::
      .group .paren (.punct '&' false :: .word "self" :: params) ::
        .punct '-' true :: .punct '>' false :: (tokens ++ rest) := by
  rw [Emit.methodHead, List.append_assoc]
  rfl

/-- A return type is read behind its arrow. -/
theorem returnType?_reads {plus : Bool} (h : Reads (grammar (.ty plus)) u ty rest) :
    Reads (returnType? grammar plus) (.punct '-' true :: .punct '>' false :: u) (some ty) rest :=
  .when?_yes rfl (.bind (a := ()) (fun _ => ⟨_, rfl⟩) h)

/-- The signature of a method is read from its head. -/
theorem signature_reads (text : String) {others : List Node} (hname : isKeyword ⟨text⟩ = false)
    (hothers : ∀ other ∈ others, isReceiver other = false)
    (hparams : Reads (commaList (functionParam grammar))
      (.punct '&' false :: .word "self" :: params) (closedParams (selfNode :: others)) [])
    (houtput : Reads (grammar (.ty true)) (tokens ++ .group .brace body :: rest) output
      (.group .brace body :: rest)) :
    Reads (signature grammar)
      (Emit.methodHead text params tokens ++ .group .brace body :: rest)
      (headNode ⟨text⟩ others output) (.group .brace body :: rest) := by
  have hfirst : ((closedParams (selfNode :: others)).tail.all fun input =>
      !isReceiver input.2) = true := by
    simpa [closedParams] using hothers
  rw [methodHead_append]
  unfold signature
  refine (Reads.word?_no rfl).bind ((Reads.word?_no rfl).bind ((Reads.word?_no rfl).bind ?_))
  refine .bind (a := .absent) (fun _ => ⟨_, rfl⟩) ((Reads.word "fn" _).bind ?_)
  refine (Reads.ident hname _).bind ((params_read_none rfl).bind ((Reads.group hparams).bind ?_))
  refine (Reads.require (all_dropLast_closedParams _) _).bind ((Reads.require hfirst _).bind ?_)
  refine (returnType?_reads houtput).bind ((where_reads_none rfl).bind ?_)
  -- No open end is taken off the list.
  rw [getLast?_closedParams]
  cases (selfNode :: others).getLast? with
  | none =>
      change Reads (pure _) _ _ _
      rw [map_snd_closedParams]
      exact .pure _ _
  | some last =>
      change Reads (pure _) _ _ _
      rw [map_snd_closedParams]
      exact .pure _ _

/-! ## Methods -/

/-- The tree of a method that borrows its receiver. -/
def methodNode (name : Ident) (others : List Node) (output block : Node) : Node :=
  .item [] .inherited false (.function (headNode name others output) (some block))

/-- A method stands in an implementation, with the block that was written for it. -/
theorem method_stands (text : String) {others : List Node} {block : Node}
    (hname : isKeyword ⟨text⟩ = false) (hothers : ∀ other ∈ others, isReceiver other = false)
    (hparams : Reads (commaList (functionParam grammar))
      (.punct '&' false :: .word "self" :: params) (closedParams (selfNode :: others)) [])
    (houtput : ∀ rest, Reads (grammar (.ty true)) (tokens ++ .group .brace body :: rest) output
      (.group .brace body :: rest))
    (hblock : ∀ rest,
      Reads (blockWithAttrs grammar) (.group .brace body :: rest) ([], block) rest) :
    Stands (implItem grammar) (Emit.methodHead text params tokens ++ [.group .brace body])
      (methodNode ⟨text⟩ others output block) := by
  refine ⟨List.append_ne_nil_of_right_ne_nil _ (List.cons_ne_nil _ _), fun rest => ?_⟩
  rw [List.append_assoc]
  have hfunction : Reads (functionItem grammar .inherited false)
      (Emit.methodHead text params tokens ++ .group .brace body :: rest)
      (.node [] .inherited false (.function (headNode ⟨text⟩ others output) (some block))) rest :=
    (signature_reads text hname hothers hparams (houtput rest)).bind
      ((Reads.op?_no rfl).bind ((hblock rest).bind (.pure _ _)))
  unfold implItem
  refine .get fun start _ => (Reads.many_nil rfl).bind ((visibility_reads_none rfl).bind ?_)
  refine .no rfl (Reads.bind (.pure false _) (.yes rfl ?_))
  exact .peek (.peek (hfunction.bind (finish_reads _ _ _ _ _ _)))

/-- A method without further parameters. -/
theorem getter_stands (text : String) {block : Node} (hname : isKeyword ⟨text⟩ = false)
    (houtput : ∀ rest, Reads (grammar (.ty true)) (tokens ++ .group .brace body :: rest) output
      (.group .brace body :: rest))
    (hblock : ∀ rest,
      Reads (blockWithAttrs grammar) (.group .brace body :: rest) ([], block) rest) :
    Stands (implItem grammar) (Emit.methodHead text [] tokens ++ [.group .brace body])
      (methodNode ⟨text⟩ [] output block) :=
  method_stands text hname (List.forall_mem_nil _) (fun _ => ⟨_, rfl⟩) houtput hblock

/-! ## Implementations -/

/-- The tree of the implementation of a trait with an argument. -/
def implNode (base : Ident) (argument : Node) (name : Ident) (methods : List Node) : Node :=
  .item [] .inherited false (.implementation false (.generics [] []) false
    (some (appliedNode base argument)) (.ofIdent name) methods)

/-- An implementation is read with all its methods. -/
theorem implementation_reads {base : String} {parts : List (List Token)} {methods : List Node}
    (hbase : isKeyword ⟨base⟩ = false) (hname : isKeyword name = false) (h : SpellsType tokens ty)
    (hattr : isInnerAttr parts.flatten = false)
    (hmethods : List.Forall₂ (Stands (implItem grammar)) parts methods) :
    Reads (implementation grammar .inherited)
      (.word "impl" :: (Emit.applied base tokens ++ .word "for" :: .ident name ::
        .group .brace parts.flatten :: rest))
      (.node [] .inherited false (.implementation false (.generics [] []) false
        (some (appliedNode ⟨base⟩ ty)) (.ofIdent name) methods)) rest := by
  have happlied : Emit.applied base tokens ++ .word "for" :: .ident name ::
      .group .brace parts.flatten :: rest = .ident ⟨base⟩ :: .punct '<' false :: tokens ++
        .punct '>' false :: .word "for" :: .ident name :: .group .brace parts.flatten :: rest := by
    rw [Emit.applied, List.append_assoc]
    rfl
  have hconst : ((isWord "const").or ((isOp "?").and (second (isWord "const"))))
      (.ident ⟨base⟩ :: .punct '<' false :: tokens ++ .punct '>' false :: .word "for" ::
        .ident name :: .group .brace parts.flatten :: rest) = false :=
    Bool.or_eq_false_iff.mpr ⟨isWord_of_not_keyword hbase (by decide), rfl⟩
  rw [happlied]
  unfold implementation
  -- No parameters, no constant and no negation stand between the keyword and the trait.
  refine (Reads.word?_no rfl).bind ((Reads.word?_no rfl).bind ((Reads.word "impl" _).bind ?_))
  refine .no rfl (Reads.bind (.pure [] _) (.no hconst ?_))
  refine .no rfl (Reads.bind (.pure false _) ?_)
  refine (applied_reads hbase h rfl rfl).bind ((Reads.word?_yes "for" _).bind ?_)
  refine (Reads.require rfl _).bind ((name_reads hname (.of_closesType rfl)).bind ?_)
  exact (where_reads_none rfl).bind ((bracedItems_read hattr hmethods).bind (.pure _ _))

/-- An implementation stands among items. -/
theorem impl_stands {base : String} {parts : List (List Token)} {methods : List Node}
    (hbase : isKeyword ⟨base⟩ = false) (hname : isKeyword name = false) (h : SpellsType tokens ty)
    (hattr : isInnerAttr parts.flatten = false)
    (hmethods : List.Forall₂ (Stands (implItem grammar)) parts methods) :
    Stands (grammar .item)
      (.word "impl" :: (Emit.applied base tokens ++
        [.word "for", .ident name, .group .brace parts.flatten]))
      (implNode ⟨base⟩ ty name methods) := by
  refine ⟨List.cons_ne_nil _ _, fun rest => ?_⟩
  have hkind : Reads (itemKind grammar .inherited) (.word "impl" :: (Emit.applied base tokens ++
      .word "for" :: .ident name :: .group .brace parts.flatten :: rest)) _ rest :=
    .congr (itemKind_impl .inherited) (implementation_reads hbase hname h hattr hmethods)
  rw [List.cons_append, List.append_assoc]
  exact bareItem_reads rfl fun start =>
    restOfItem_reads start [] (visibility_reads_none rfl) hkind

end ActionUnits.Source
