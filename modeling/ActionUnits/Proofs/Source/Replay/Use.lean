import ActionUnits.Proofs.Source.Reading.Statements
import ActionUnits.Proofs.Source.Replay.Block

/-! # Replaying imports

An import in a file may have more forms than one by itself: a branch may start with
two colons. One that is read without these forms is read alike with them. The depth
that bounds a tree is at least that of any tree of so many tokens, so it does not
matter which bound is used.
-/

namespace ActionUnits.Source

variable {m : Mode} {size : Nat} {u u' : List Token}

/-! ## Depth -/

/-- Trees that may be deeper than there are tokens are read alike. -/
theorem useTree_deep_alike {depth depth' : Nat} (hdepth : size ≤ depth) (hdepth' : size ≤ depth')
    (rootsInside : Bool) :
    Alike size .inside (useTree depth rootsInside) (useTree depth' rootsInside) .firm := by
  induction size generalizing depth depth' rootsInside with
  | zero => exact ⟨fun hc => absurd hc (Nat.not_lt_zero _), fun hc => absurd hc (Nat.not_lt_zero _)⟩
  | succ size ih =>
      obtain ⟨depth, rfl⟩ := Nat.exists_eq_add_one_of_ne_zero (Nat.ne_zero_of_lt hdepth)
      obtain ⟨depth', rfl⟩ := Nat.exists_eq_add_one_of_ne_zero (Nat.ne_zero_of_lt hdepth')
      have hinside := @ih depth depth' (by omega) (by omega)
      have hstart : Alike size .start (useTree (depth + 1) rootsInside)
          (useTree (depth' + 1) rootsInside) .firm := by
        unfold useTree
        infer_instance
      exact ⟨hstart.agree, hstart.reads⟩

/-- Any depth above the size of the tokens reads the same import tree. -/
theorem useTree_apply_eq {depth depth' : Nat} {c : Cursor} (hdepth : Token.sizeAll c.rest < depth)
    (hdepth' : Token.sizeAll c.rest < depth') (rootsInside : Bool) :
    useTree depth rootsInside c = useTree depth' rootsInside c :=
  (useTree_deep_alike hdepth hdepth' rootsInside).agree (Nat.lt_succ_self _)

/-! ## Trees -/

instance : Headed isUseName :=
  inferInstanceAs (Headed (isIdent.or (isOneOf ["self", "super", "crate", "try"])))

/-- Both readings go on with the tree of an import. -/
def UseStart : Follow := fun u u' => isOp "::" u = false ∧ Lead u u'

/-- Renamings of imports are read the same again. -/
theorem useAlias_replays : Replays m size 1 (fun _ => Any) useAlias useAlias Lead :=
  @Replays.require _ _ _ _ _ _ _ _ (isIdent.or (isWord "_")) inferInstance (fun _ _ h => h)
    anyWord_closed

/-- A branch of an import, which may start with two colons. -/
def useBranch (depth : Nat) (rootsInside : Bool) : Parser (Option UseTree) := do
  let rooted ← if rootsInside then op? "::" else pure false
  let tree ← useTree depth (rootsInside && !rooted)
  return if rooted then none else tree

/-- Whether an import may start with two colons at some place matters only where it does. -/
theorem useBranch_replays {depth : Nat} {roots roots' : Bool} (hroots : roots = true → roots' = true)
    (htree : ∀ {r r' : Bool}, (r = true → r' = true) →
      Replays m size 1 (fun _ => Lead) (useTree depth r) (useTree depth r') UseStart) :
    Replays m size 1 (fun _ => Lead) (useBranch depth roots) (useBranch depth roots') Lead := by
  unfold useBranch
  cases roots with
  | true =>
      obtain rfl := hroots rfl
      refine .op? (fun _ _ h => h) ?_ ((htree fun h => h).wrap.before fun _ _ h => h.2)
      exact op_path.keep UseStart (fun _ => (htree fun h => h).forget.wrap) fun _ _ _ h => h.2.kin
  | false =>
      have hplain : Replays m size 1 (fun _ => Lead) (useTree depth false >>= fun tree => pure tree)
          (useTree depth roots' >>= fun tree => pure tree) UseStart :=
        (htree Bool.noConfusion).wrap
      cases roots' with
      | false => exact hplain.before fun _ _ h => h.2
      | true =>
          rw [if_pos rfl, op?_bind]
          exact (hplain.passing fun u u' h => h.2.path_eq.symm.trans h.1).before fun _ _ h => h.2

/-- Import trees are read the same again. -/
theorem useTree_replays (depth : Nat) {roots roots' : Bool} (hroots : roots = true → roots' = true) :
    Replays m size 1 (fun _ => Lead) (useTree depth roots) (useTree depth roots') UseStart := by
  -- On the depth of the tree, with any number of tokens left.
  induction depth generalizing size roots roots' with
  | zero => exact .failure
  | succ depth ih =>
      have hname : Replays m size 1 (fun _ => Lead)
          (anyWord >>= fun name => op? "::" >>= fun more =>
            if more = true then useTree depth false >>= fun tree => pure (tree.map (UseTree.path name))
            else word? "as" >>= fun renamed =>
              if renamed = true then useAlias >>= fun new => pure (some (.rename name new))
              else pure (some (.name name)))
          (anyWord >>= fun name => op? "::" >>= fun more =>
            if more = true then useTree depth false >>= fun tree => pure (tree.map (UseTree.path name))
            else word? "as" >>= fun renamed =>
              if renamed = true then useAlias >>= fun new => pure (some (.rename name new))
              else pure (some (.name name))) (WordThen Lead) := by
        refine (anyWord_replays Lead).keep Lead (fun name => .op? (fun _ _ h => h) ?_
          (.word? (fun _ _ h => h) ?_ (.pure _))) fun _ _ _ h => h
        · exact op_path.forget.bind UseStart (fun _ => (ih fun h => h).forget.wrap)
            fun _ _ _ h => h.2.kin
        · exact (word_closed "as").forget.bind Lead (fun _ => (useAlias_replays.forget.wrap).after
            fun _ _ _ _ => trivial) fun _ _ _ _ => trivial
      have hgroup : Replays m size 1 (fun _ => Lead)
          (group .brace (commaList (useBranch depth roots) >>= fun trees =>
            pure ((trees.mapM id).map UseTree.group)))
          (group .brace (commaList (useBranch depth roots') >>= fun trees =>
            pure ((trees.mapM id).map UseTree.group))) BraceStart := by
        have hlist := commaList_replays (useBranch_replays hroots fun h => @ih size _ _ h)
          (.refl []) fun _ _ _ h => h
        exact ((group_closed .brace hlist.wrap fun _ => atEnd_nil).smaller.noting kind_of_group).after
          fun _ _ _ _ => trivial
      have hlead : ∀ u u', UseStart u u' → Lead u u' := fun u u' h => h.2
      unfold useTree
      refine .iteYes hlead (hname.before fun u u' h _ => ⟨?_, h.lead⟩)
        (.op? hlead ?_ (hgroup.before fun u u' h => ⟨?_, h.2⟩))
      · obtain ⟨name, r, r', rfl, -⟩ := h
        rfl
      · refine ((op_known "*").result fun _ _ _ _ => trivial).before fun u u' h => ⟨?_, h.2⟩
        rw [isOp_of_kind (rfl : "::".toList = [':', ':']) (by decide)]
        rw [kind_of_isOp (rfl : "*".toList = ['*']) (by decide) h.1]
        decide
      · exact isOp_of_kind (rfl : "::".toList = [':', ':']) (by decide) (by rw [h.1]; nofun)

/-- A tree in the place of an import, where its depth is bounded by what is left to be read. -/
def boundedTree (rootsInside : Bool) : Parser (Option UseTree) := do
  useTree (Token.sizeAll (← get).rest + 1) rootsInside

/-- Import trees are read the same again, at the depth their tokens allow. -/
theorem boundedTree_replays {roots roots' : Bool} (hroots : roots = true → roots' = true) :
    Replays m size 1 (fun _ => Lead) (boundedTree roots) (boundedTree roots') UseStart := by
  intro c tree d hrun
  have hdeep : ∀ {c : Cursor} {depth : Nat} (r : Bool), Token.sizeAll c.rest < depth →
      boundedTree r c = useTree depth r c :=
    fun {c depth} r hdepth => useTree_apply_eq (Nat.lt_succ_self _) hdepth r
  have hreplays := fun depth => @useTree_replays m size depth _ _ hroots c tree d
  obtain ⟨read, written, hread, hwritten, hlr, hlw, -⟩ :=
    hreplays (Token.sizeAll c.rest + 1) (hdeep roots (Nat.lt_succ_self _) ▸ hrun)
  refine ⟨read, written, hread, hwritten, hlr, hlw, fun rest hrest hbound => ?_⟩
  -- A depth that is enough for both readings.
  obtain ⟨depth, hdepth, hdepth'⟩ : ∃ depth, Token.sizeAll c.rest < depth ∧
      Token.sizeAll (m.pick read written ++ rest) < depth :=
    ⟨_, Nat.lt_succ_of_le (Nat.le_max_left _ _), Nat.lt_succ_of_le (Nat.le_max_right _ _)⟩
  obtain ⟨read', written', hread', hwritten', -, -, hreplay⟩ :=
    hreplays depth (hdeep roots hdepth ▸ hrun)
  obtain rfl : read = read' := List.append_cancel_right (hread.symm.trans hread')
  obtain rfl : written = written' :=
    List.reverse_inj.mp (List.append_cancel_right (hwritten.symm.trans hwritten'))
  obtain ⟨hstart, hagain⟩ := hreplay rest hrest hbound
  exact ⟨hstart, fun z => (hdeep roots' hdepth').trans (hagain z)⟩

/-! ## Imports -/

/-- Imports are read the same again. -/
theorem useItem_replays {roots roots' : Bool} (hroots : roots = true → roots' = true) :
    Replays m size 1 (fun _ => Any) (useItem roots) (useItem roots') (Keyword "use") := by
  have htree : ∀ rooted : Bool, Replays m size 0 (fun _ => Any)
      (boundedTree (roots && !rooted) >>= fun tree => op ";" >>= fun _ =>
        pure (tree.map (Node.useItem rooted)))
      (boundedTree (roots' && !rooted) >>= fun tree => op ";" >>= fun _ =>
        pure (tree.map (Node.useItem rooted))) UseStart := by
    intro rooted
    refine (boundedTree_replays fun h => ?_).forget.bind Lead
      (fun tree => (op_closed ";").forget.wrap) fun _ _ _ h => h
    rw [Bool.and_eq_true] at h ⊢
    exact ⟨hroots h.1, h.2⟩
  refine (word_then "use" Lead).keep Lead (fun _ => .op? (fun _ _ h => h) ?_ ?_) fun _ _ _ h => h
  · exact op_path.forget.bind UseStart (fun _ => htree true) fun _ _ _ h => h.2.kin
  · exact (htree false).before fun _ _ h => h.2

end ActionUnits.Source
