import ActionUnits.Proofs.Source.Replay.Function

/-! # Replaying the heads of functions

The words in front of a function are read one by one, and the question that tells
a function from other items looks past the same words. So a head that has been
read answers this question, in both readings.
-/

namespace ActionUnits.Source

variable {m : Mode} {size : Nat} {g g' : Grammar} {u u' : List Token}

/-! ## Telling a function from other items -/

theorem isSignature_eq (tokens : List Token) : isSignature tokens =
    isWord "fn" (afterAbi (afterWord "unsafe" (afterWord "async" (afterWord "const" tokens)))) := by
  unfold isSignature afterAbi afterWord
  simp only [List.drop_one]

/-- What is read as a signature looks like one ahead. -/
theorem isSignature_of_signature {c d : Cursor} {node : Node}
    (h : signature g c = some (node, d)) : isSignature c.rest = true := by
  unfold signature at h
  obtain ⟨_, c₁, hconst, h⟩ := bind_eq_some.mp h
  obtain ⟨_, c₂, hasync, h⟩ := bind_eq_some.mp h
  obtain ⟨_, c₃, hunsafe, h⟩ := bind_eq_some.mp h
  obtain ⟨_, c₄, habi, h⟩ := bind_eq_some.mp h
  obtain ⟨_, c₅, hfn, -⟩ := bind_eq_some.mp h
  rw [isSignature_eq, ← word?_rest hconst, ← word?_rest hasync, ← word?_rest hunsafe,
    ← abi_rest habi]
  exact (require_peek_bind.mp hfn).1

/-- Both readings go on with the head of a function. -/
structure SignatureStart (u u' : List Token) : Prop extends Lead u u' where
  left : isSignature u = true
  right : isSignature u' = true

/-! ## Heads and bodies -/

/-- Both readings go on with a group. -/
def GroupStart (delimiter : Delimiter) : Follow := fun u u' => kind u = .group delimiter ∧ Lead u u'

theorem GroupStart.not_isOp {delimiter : Delimiter} (h : GroupStart delimiter u u') {text : String}
    {char : Char} {chars : List Char} (htext : text.toList = char :: chars) (hchar : char ≠ '\'') :
    isOp text u' = false :=
  isOp_of_kind htext hchar (by rw [← h.2.kind_eq, h.1]; nofun)

/-- Generic parameters in front of something that does not start with an angle bracket. -/
theorem genericParams_loose (hg : ∀ m, Knot m size g g') {End : Follow}
    (hEnd : ∀ u u', End u u' → isOp "<" u' = false) :
    Replays m size 0 (fun _ => End) (genericParams g) (genericParams g') Any :=
  (genericParams_replays hg hEnd).smaller.before fun _ _ _ => trivial

/-- Signatures are read the same again. -/
theorem signature_replays (hg : ∀ m, Knot m size g g') :
    Replays m size 1 (fun _ => WhereEnds) (signature g) (signature g') SignatureStart := by
  have hinputs : Replays m size 1 (fun _ => Any) (group .paren (commaList (functionParam g)))
      (group .paren (commaList (functionParam g'))) (GroupStart .paren) :=
    (functionParams_replays (hg m)).smaller.noting kind_of_group
  have hparams : Replays m size 0 (fun _ => GroupStart .paren) (genericParams g) (genericParams g')
      Any := genericParams_loose hg fun _ _ h => h.not_isOp (rfl : "<".toList = ['<']) (by decide)
  have hwhere : ∀ node : List Node → Node, Replays m size 0 (fun _ => WhereEnds)
      (whereClause g >>= fun predicates => pure (node predicates))
      (whereClause g' >>= fun predicates => pure (node predicates)) (WhereStart m) :=
    fun node => (whereClause_replays hg).wrap
  have houtput : ∀ node : Option Node → List Node → Node, Replays m size 0 (fun _ => WhereEnds)
      (returnType? g true >>= fun output => whereClause g >>= fun predicates =>
        pure (node output predicates))
      (returnType? g' true >>= fun output => whereClause g' >>= fun predicates =>
        pure (node output predicates)) Any := fun node =>
    ((returnType?_replays (hg m) true fun _ _ h => h.typeEnds).smaller.bind _
      (fun output => hwhere (node output)) fun _ _ _ h => h).before fun _ _ _ => trivial
  have hhead : Replays m size 1 (fun _ => WhereEnds) (signature g) (signature g') Lead := by
    unfold signature
    refine (word?_closed "const").bind Lead (fun isConst => ?_) fun _ _ _ h => h
    refine (word?_closed "async").bind Lead (fun isAsync => ?_) fun _ _ _ h => h
    refine (word?_closed "unsafe").bind Lead (fun isUnsafe => ?_) fun _ _ _ h => h
    refine abi_closed.bind Lead (fun abi => ?_) fun _ _ _ h => h
    refine (word_closed "fn").keep Any (fun _ => ?_) fun _ _ _ _ => trivial
    refine (ident_closed.forget.bind Any (fun name => ?_) fun _ _ _ _ => trivial).before
      fun _ _ _ => trivial
    refine hparams.bind _ (fun params => ?_) fun _ _ _ h => h
    refine hinputs.forget.bind Any (fun inputs => .given fun _ => .given fun _ => ?_)
      fun _ _ _ _ => trivial
    dsimp only
    exact houtput fun output predicates => _
  exact (hhead.comparing (Q := fun u u' => isSignature u = true ∧ isSignature u' = true)
    fun hrun hrun' _ => ⟨isSignature_of_signature hrun, isSignature_of_signature hrun'⟩).before
    fun _ _ h => ⟨h.2, h.1.1, h.1.2⟩

end ActionUnits.Source
