import ActionUnits.Proofs.Source.Replay.Bound

/-! # Replaying lists in angle brackets

Lifetimes are written in front of the other parts of a list, so the second
reading meets the parts in another order, each followed by a comma or by the
closing bracket. Its parts are those of the first reading, sorted.
-/

namespace ActionUnits.Source

variable {m : Mode} {size : Nat} {g g' : Grammar} {P : Follow} {u u' : List Token}

/-! ## Sorted parts -/

namespace AnglePart

/-- Whether all parts but the last one have a comma. -/
def Separated (parts : List AnglePart) : Prop :=
  parts.Pairwise fun part _ => part.comma = true

def closed (part : AnglePart) : AnglePart :=
  { part with comma := true }

/-- Parts in the order in which they are written. -/
def sorted (parts : List AnglePart) : List AnglePart :=
  if (parts.filter (!·.isLifetime)).isEmpty then parts.filter (·.isLifetime)
  else (parts.filter (·.isLifetime)).map closed ++ parts.filter (!·.isLifetime)

/-- The arguments are written one after the other, with a comma behind the last one if need be. -/
theorem join_eq {closed : Bool} {parts : List AnglePart} (h : Separated parts)
    (hne : parts ≠ []) :
    join closed parts =
      (if closed then [] else [.punct ',' false]) ++ parts.flatMap written := by
  induction parts generalizing closed with
  | nil => exact absurd rfl hne
  | cons part parts ih =>
      obtain ⟨hpart, hparts⟩ := List.pairwise_cons.mp h
      cases parts with
      | nil => simp [join]
      | cons next parts =>
          have hcomma : part.comma = true := hpart next List.mem_cons_self
          rw [join, ih hparts (by simp), hcomma, List.append_assoc]
          rfl

theorem flatMap_written_closed {parts : List AnglePart} (h : Separated parts) :
    (parts.map closed).flatMap written = parts.flatMap written ++
      if (match parts.getLast? with
        | some part => part.comma
        | none => true) then [] else [.punct ',' false] := by
  induction parts with
  | nil => rfl
  | cons part parts ih =>
      obtain ⟨hpart, hparts⟩ := List.pairwise_cons.mp h
      cases parts with
      | nil => cases hcomma : part.comma <;> simp [closed, written, hcomma]
      | cons next parts =>
          have hcomma : part.closed = part := by
            rw [closed, ← hpart next List.mem_cons_self]
          rw [List.map_cons, List.flatMap_cons, ih hparts, hcomma, List.flatMap_cons (x := part),
            List.append_assoc, List.getLast?_cons_cons]

/-- In order, the lifetimes stand in front of the other arguments. -/
theorem inOrder_eq {parts : List AnglePart} (h : Separated parts) :
    inOrder parts = (sorted parts).flatMap written := by
  unfold inOrder sorted
  cases hothers : parts.filter (!·.isLifetime) with
  | nil => simp [join]
  | cons other others =>
      have hsep : Separated (other :: others) := hothers ▸ h.filter _
      simp only [List.isEmpty_cons, Bool.false_eq_true, if_false, List.flatMap_append]
      rw [join_eq hsep (by simp), flatMap_written_closed (h.filter _)]
      exact (List.append_assoc _ _ _).symm

theorem separated_sorted {parts : List AnglePart} (h : Separated parts) :
    Separated (sorted parts) := by
  unfold sorted
  split
  · exact h.filter _
  · refine List.pairwise_append.mpr ⟨?_, h.filter _, ?_⟩
    · exact List.pairwise_map.mpr (List.pairwise_of_forall fun _ _ => rfl)
    · intro part hpart _ _
      obtain ⟨original, -, rfl⟩ := List.mem_map.mp hpart
      rfl

/-- Sorting the arguments twice is sorting them once. -/
theorem sorted_sorted (parts : List AnglePart) : sorted (sorted parts) = sorted parts := by
  have hlifetimes : ∀ f : AnglePart → AnglePart, (∀ part, (f part).isLifetime = part.isLifetime) →
      ∀ part ∈ (parts.filter (·.isLifetime)).map f, part.isLifetime = true := by
    intro f hf part hpart
    obtain ⟨original, horiginal, rfl⟩ := List.mem_map.mp hpart
    rw [hf]
    exact (List.mem_filter.mp horiginal).2
  unfold sorted
  split
  next hnone => simp
  next hsome =>
      have hfirst := hlifetimes closed fun _ => rfl
      have hall : ((parts.filter (·.isLifetime)).map closed).filter (·.isLifetime) =
          (parts.filter (·.isLifetime)).map closed := List.filter_eq_self.mpr hfirst
      have hnone : ((parts.filter (·.isLifetime)).map closed).filter (!·.isLifetime) = [] :=
        List.filter_eq_nil_iff.mpr fun part hpart => by simp [hfirst part hpart]
      simp only [List.filter_append, hall, hnone, List.filter_filter, Bool.and_not_self,
        Bool.and_self, List.nil_append]
      have hempty : parts.filter (fun _ => false) = [] := by simp
      rw [if_neg hsome, hempty, List.append_nil, List.map_map]
      rfl

end AnglePart

/-! ## Elements -/

/-- Whether a part of a list in angle brackets ends here. -/
def endsPart : Peek := isAnyOp [",", ">"]

instance : Headed endsPart where
  eq_of_kind_eq h := by
    change (isOp "," _ || (isOp ">" _ || false)) = (isOp "," _ || (isOp ">" _ || false))
    rw [(Headed.eq_of_kind_eq h : isOp "," _ = _), (Headed.eq_of_kind_eq h : isOp ">" _ = _)]

/-- Where a part of a list ends in both readings. -/
structure PartEnds (m : Mode) (u u' : List Token) : Prop where
  left : endsPart u = true
  right : endsPart u' = true
  lead : m = .verbatim → Lead u u'

/-- An argument ends in front of a comma or a closing bracket. -/
theorem endsPart_iff : endsPart u = true ↔ isOp "," u = true ∨ isOp ">" u = true := by
  change (isOp "," u || (isOp ">" u || false)) = true ↔ _
  rw [Bool.or_false, Bool.or_eq_true]

theorem kind_of_endsPart (h : endsPart u = true) : kind u = .punct ',' ∨ kind u = .punct '>' :=
  (endsPart_iff.mp h).imp (kind_of_isOp rfl (by decide)) (kind_of_isOp rfl (by decide))

/-- What a comma and a closing bracket answer. -/
theorem answer_of_endsPart {question : Peek} [hq : Headed question] {answer : Bool}
    (h : endsPart u = true) (hcomma : question [.punct ',' false] = answer)
    (hclose : question [.punct '>' false] = answer) : question u = answer :=
  (kind_of_endsPart h).elim (fun hkind => (hq.eq_of_kind_eq hkind).trans hcomma)
    fun hkind => (hq.eq_of_kind_eq hkind).trans hclose

/-- An operator that starts with neither a comma nor a closing bracket. -/
theorem isOp_of_endsPart {text : String} {char : Char} {chars : List Char} (h : endsPart u = true)
    (htext : text.toList = char :: chars) (hchar : char ∉ ['\'', ',', '>']) :
    isOp text u = false := by
  simp only [List.mem_cons, List.not_mem_nil, or_false, not_or] at hchar
  refine isOp_of_kind htext hchar.1 ?_
  rcases kind_of_endsPart h with hkind | hkind <;> rw [hkind] <;> simp [Ne.symm hchar.2.1,
    Ne.symm hchar.2.2]

theorem PartEnds.typeEnds (h : PartEnds m u u') : TypeEnds u u' := by
  refine typeEnds_of_closesType ?_
  rcases kind_of_endsPart h.right with hkind | hkind <;> rw [hkind] <;> rfl

/-- One element of a list in angle brackets with its comma, unless the list ends. -/
def angleStep (isLifetime : Node → Bool) (element : Parser Node) :
    Parser (Option (Node × AnglePart)) := do
  if ← peek (isOp ">") then return none
  else
    let (node, tokens) ← capture element
    let comma := !(← peek (isOp ">"))
    if comma then op ","
    return some (node, AnglePart.mk (isLifetime node) tokens comma)

/-- The elements between two angle brackets. -/
def angleElements (isLifetime : Node → Bool) (element : Parser Node) :
    Parser (List (Node × AnglePart)) := do
  op "<"
  let elements ← repeated (angleStep isLifetime element)
  op ">"
  return elements

def angleTokens (keepEmpty : Bool) (elements : List (Node × AnglePart)) : List Token :=
  if keepEmpty || !elements.isEmpty then
    Token.operator "<" ++ AnglePart.inOrder (elements.map (·.2)) ++ Token.operator ">"
  else []

def angleNodes (isLifetime : Node → Bool) (elements : List (Node × AnglePart)) : List Node :=
  (elements.map (·.1)).filter isLifetime ++ (elements.map (·.1)).filter (!isLifetime ·)

/-- The elements of a list in angle brackets are read first and written in order afterwards. -/
theorem angleList_eq (keepEmpty : Bool) (isLifetime : Node → Bool) (element : Parser Node) :
    angleList keepEmpty isLifetime element =
      (capture (angleElements isLifetime element) >>= fun result =>
        write (angleTokens keepEmpty result.1) >>= fun _ =>
          pure (angleNodes isLifetime result.1)) := by
  unfold angleList
  refine bind_congr fun ⟨elements, _⟩ => ?_
  unfold angleTokens
  dsimp only
  split <;> rfl

section Elements

variable {isLifetime : Node → Bool} {element element' : Parser Node} {Pre : Follow}
  {e : Node × AnglePart} {elements : List (Node × AnglePart)} {c d : Cursor}

/-- The list ends at its closing bracket. -/
theorem angleStep_eq_none :
    angleStep isLifetime element c = some (none, d) ↔ isOp ">" c.rest = true ∧ c = d := by
  unfold angleStep
  rw [peek_bind_apply]
  split
  next hclose => simp [hclose]
  next hclose =>
      constructor
      · intro h
        obtain ⟨⟨node, tokens⟩, e, -, hrest⟩ := bind_eq_some.mp h
        dsimp only at hrest
        rw [peek_bind_apply] at hrest
        split at hrest
        · obtain ⟨_, _, _, hpure⟩ := bind_eq_some.mp hrest
          cases (pure_eq_some.mp hpure).1
        · cases (pure_eq_some.mp hrest).1
      · exact fun h => absurd h.1 hclose

/-- One more element is read, with its comma if it has one. -/
theorem angleStep_eq_some :
    angleStep isLifetime element c = some (some e, d) ↔
      isOp ">" c.rest = false ∧ e.2.isLifetime = isLifetime e.1 ∧
      ∃ rest, element ⟨c.rest, []⟩ = some (e.1, ⟨rest, e.2.tokens.reverse⟩) ∧
        ((isOp ">" rest = true ∧ e.2.comma = false ∧ d = ⟨rest, c.written⟩) ∨
          (isOp ">" rest = false ∧ e.2.comma = true ∧ isOp "," rest = true ∧
            d = ⟨rest.drop 1, .punct ',' false :: c.written⟩)) := by
  obtain ⟨node, kindFlag, tokens, comma⟩ := e
  unfold angleStep
  rw [peek_bind_apply]
  cases hclose : isOp ">" c.rest with
  | true => simp
  | false =>
      simp only [Bool.false_eq_true, if_false, true_and]
      rw [bind_eq_some]
      constructor
      · rintro ⟨⟨node', tokens'⟩, ⟨rest, written⟩, hcapture, hrest⟩
        obtain ⟨out, hrun, rfl, rfl⟩ := capture_eq_some.mp hcapture
        dsimp only at hrest hrun
        rw [peek_bind_apply] at hrest
        cases hnext : isOp ">" rest with
        | true =>
            simp only [hnext, Bool.not_true, Bool.false_eq_true, if_false] at hrest
            obtain ⟨heq, rfl⟩ := pure_eq_some.mp hrest
            cases heq
            exact ⟨rfl, rest, by simpa using hrun, .inl ⟨hnext, rfl, rfl⟩⟩
        | false =>
            simp only [hnext, Bool.not_false, if_true] at hrest
            obtain ⟨_, f, hop, hpure⟩ := bind_eq_some.mp hrest
            obtain ⟨hcomma, rfl⟩ := op_eq_some.mp hop
            obtain ⟨heq, rfl⟩ := pure_eq_some.mp hpure
            cases heq
            exact ⟨rfl, rest, by simpa using hrun, .inr ⟨hnext, rfl, hcomma, rfl⟩⟩
      · rintro ⟨rfl, rest, hrun, hends⟩
        refine ⟨(node, tokens), ⟨rest, c.written⟩,
          capture_eq_some.mpr ⟨tokens.reverse, hrun, by simp, rfl⟩, ?_⟩
        dsimp only
        rw [peek_bind_apply]
        rcases hends with ⟨hnext, rfl, rfl⟩ | ⟨hnext, rfl, hcomma, rfl⟩
        · simp only [hnext, Bool.not_true, Bool.false_eq_true, if_false]
          rfl
        · simp only [hnext, Bool.not_false, if_true]
          exact bind_eq_some.mpr ⟨(), _, op_eq_some.mpr ⟨hcomma, rfl⟩, rfl⟩

/-- An element that was read where the tokens `u` came next. -/
structure Ran (isLifetime : Node → Bool) (element : Parser Node) (u : List Token)
    (e : Node × AnglePart) : Prop where
  starts : isOp ">" u = false
  run : ∃ rest, element ⟨u, []⟩ = some (e.1, ⟨rest, e.2.tokens.reverse⟩) ∧ endsPart rest = true
  lifetime : e.2.isLifetime = isLifetime e.1

theorem ran_of_angleStep (h : angleStep isLifetime element c = some (some e, d)) :
    Ran isLifetime element c.rest e ∧ (e.2.comma = false → isOp ">" d.rest = true) := by
  obtain ⟨hclose, hlifetime, rest, hrun, hends⟩ := angleStep_eq_some.mp h
  rcases hends with ⟨hnext, hcomma, rfl⟩ | ⟨-, hcomma, hnext, rfl⟩
  · exact ⟨⟨hclose, ⟨rest, hrun, endsPart_iff.mpr (.inr hnext)⟩, hlifetime⟩, fun _ => hnext⟩
  · exact ⟨⟨hclose, ⟨rest, hrun, endsPart_iff.mpr (.inl hnext)⟩, hlifetime⟩,
      fun hno => absurd (hcomma.symm.trans hno) (by decide)⟩

/-- The elements of a first reading, in order. -/
theorem Rounds.ran (h : Rounds (angleStep isLifetime element) c elements d) :
    isOp ">" d.rest = true ∧ (∀ e ∈ elements, ∃ u, Ran isLifetime element u e) ∧
      (∀ e, elements.head? = some e → Ran isLifetime element c.rest e) ∧
      AnglePart.Separated (elements.map (·.2)) ∧ (elements = [] → c.rest = d.rest) := by
  induction h with
  | stop hfirst =>
      obtain ⟨hclose, rfl⟩ := angleStep_eq_none.mp hfirst
      exact ⟨hclose, by simp, by simp, .nil, fun _ => rfl⟩
  | @next c d f e elements hfirst hrounds ih =>
      obtain ⟨hclose, hran, -, hseparated, -⟩ := ih
      obtain ⟨hhead, hlast⟩ := ran_of_angleStep hfirst
      refine ⟨hclose, ?_, ?_, ?_, by simp⟩
      · intro other hother
        rcases List.mem_cons.mp hother with rfl | hother
        · exact ⟨_, hhead⟩
        · exact hran other hother
      · intro other hother
        cases hother
        exact hhead
      · rw [List.map_cons, AnglePart.Separated, List.pairwise_cons]
        refine ⟨fun other hother => ?_, hseparated⟩
        cases hcomma : e.2.comma with
        | true => rfl
        | false =>
            -- Without a comma the closing bracket comes next, and there is no further element.
            have hend := hlast hcomma
            cases hrounds with
            | stop _ => cases hother
            | next hsecond _ =>
                have hgoes := (angleStep_eq_some.mp hsecond).1
                rw [hend] at hgoes
                cases hgoes

theorem Rounds.reads {Post : Node → Follow} (hp : Replays m size 1 Post element element' Pre)
    (h : Rounds (angleStep isLifetime element) c elements d) :
    ∃ read, c.rest = read ++ d.rest := by
  induction h with
  | stop hfirst =>
      obtain ⟨-, rfl⟩ := angleStep_eq_none.mp hfirst
      exact ⟨[], rfl⟩
  | next hfirst _ ih =>
      obtain ⟨-, -, rest, hrun, hends⟩ := angleStep_eq_some.mp hfirst
      obtain ⟨read, -, hread, -⟩ := hp _ _ _ hrun
      obtain ⟨more, hmore⟩ := ih
      rcases hends with ⟨-, -, rfl⟩ | ⟨-, -, hcomma, rfl⟩
      · exact ⟨read ++ more, by rw [hread, show rest = _ from hmore, List.append_assoc]⟩
      · obtain ⟨joint, others, rfl⟩ := @exists_of_nextIsOp ',' [] _ hcomma
        change others = more ++ _ at hmore
        exact ⟨read ++ .punct ',' joint :: more, by rw [hread, hmore]; simp⟩

/-- An element is read back where a part may end. -/
theorem Ran.reread (h : Ran isLifetime element u e)
    (hp : Replays .written size 1 (fun _ => PartEnds .written) element element' Pre) :
    0 < e.2.tokens.length ∧ ∀ rest, endsPart rest = true →
      Token.sizeAll (e.2.tokens ++ rest) ≤ size → Pre u (e.2.tokens ++ rest) ∧
        ∀ z, element' ⟨e.2.tokens ++ rest, z⟩ = some (e.1, ⟨rest, e.2.tokens.reverse ++ z⟩) := by
  obtain ⟨after, hrun, hends⟩ := h.run
  obtain ⟨read, written, -, hwritten, -, hlength, hreplay⟩ := hp _ _ _ hrun
  obtain rfl : e.2.tokens = written := by simpa using hwritten
  refine ⟨hlength, fun rest hrest hbound => ?_⟩
  exact hreplay rest ⟨hends, hrest, nofun⟩ hbound

/-- What is written after an element: a comma, or the closing bracket. -/
theorem after_element (hseparated : AnglePart.Separated ((e :: elements).map (·.2)))
    (rest : List Token) (hrest : isOp ">" rest = true) :
    ∃ after, ((e :: elements).map (·.2)).flatMap AnglePart.written ++ rest = e.2.tokens ++ after ∧
      endsPart after = true ∧
      ((e.2.comma = true ∧ after =
          .punct ',' false :: ((elements.map (·.2)).flatMap AnglePart.written ++ rest)) ∨
        (e.2.comma = false ∧ elements = [] ∧ after = rest)) := by
  obtain ⟨hlast, -⟩ := List.pairwise_cons.mp hseparated
  rw [List.map_cons, List.flatMap_cons, AnglePart.written]
  cases hcomma : e.2.comma with
  | true => exact ⟨_, by simp, endsPart_iff.mpr (.inl rfl), .inl ⟨rfl, rfl⟩⟩
  | false =>
      -- Only the last element has no comma.
      obtain rfl : elements = [] := by
        cases elements with
        | nil => rfl
        | cons next elements =>
            have := hlast next.2 List.mem_cons_self
            rw [hcomma] at this
            cases this
      exact ⟨rest, by simp, endsPart_iff.mpr (.inr hrest), .inr ⟨rfl, rfl, rfl⟩⟩

/-- The elements of a second reading, which meets them in another order. -/
theorem Rounds.reread
    (hp : Replays .written size 1 (fun _ => PartEnds .written) element element' Pre)
    (hlead : ∀ u u', Pre u u' → Lead u u')
    (hran : ∀ e ∈ elements, ∃ u, Ran isLifetime element u e)
    (hseparated : AnglePart.Separated (elements.map (·.2))) (rest : List Token)
    (hrest : isOp ">" rest = true)
    (hbound : Token.sizeAll ((elements.map (·.2)).flatMap AnglePart.written ++ rest) ≤ size)
    (z : List Token) :
    elements.length ≤ ((elements.map (·.2)).flatMap AnglePart.written).length ∧
    ∃ z', Rounds (angleStep isLifetime element')
      ⟨(elements.map (·.2)).flatMap AnglePart.written ++ rest, z⟩ elements ⟨rest, z'⟩ := by
  induction elements generalizing z with
  | nil => exact ⟨Nat.zero_le _, z, .stop (angleStep_eq_none.mpr ⟨hrest, rfl⟩)⟩
  | cons e elements ih =>
      obtain ⟨u, he⟩ := hran e List.mem_cons_self
      obtain ⟨hlength, hagain⟩ := he.reread hp
      obtain ⟨after, hafter, hends, hcases⟩ := after_element hseparated rest hrest
      have hseparated := (List.pairwise_cons.mp hseparated).2
      rw [hafter] at hbound ⊢
      obtain ⟨hpre, hrun⟩ := hagain after hends hbound
      have hstarts : isOp ">" (e.2.tokens ++ after) = false :=
        (Stable.eq_of_lead (hlead _ _ hpre)).symm.trans he.starts
      have hfirst : element' ⟨e.2.tokens ++ after, []⟩ =
          some (e.1, ⟨after, e.2.tokens.reverse⟩) := by rw [hrun [], List.append_nil]
      have hothers := fun hbound z =>
        ih (fun e he => hran e (List.mem_cons_of_mem _ he)) hseparated hbound z
      rw [List.map_cons, List.flatMap_cons, List.length_append, AnglePart.written,
        List.length_append, List.length_cons]
      rw [Token.sizeAll_append] at hbound
      rcases hcases with ⟨hcomma, rfl⟩ | ⟨hcomma, rfl, rfl⟩
      · rw [Token.sizeAll] at hbound
        obtain ⟨hmany, z', hrounds⟩ := hothers (by omega) (.punct ',' false :: z)
        refine ⟨by omega, z', .next (angleStep_eq_some.mpr ⟨hstarts, he.lifetime, _, hfirst,
          .inr ⟨rfl, hcomma, rfl, rfl⟩⟩) hrounds⟩
      · refine ⟨by simp; omega, z, .next (angleStep_eq_some.mpr ⟨hstarts, he.lifetime, _, hfirst,
          .inl ⟨hrest, hcomma, rfl⟩⟩) (.stop (angleStep_eq_none.mpr ⟨hrest, rfl⟩))⟩

/-! ## Lists -/

/-- Elements in the order in which they are written. -/
def sortedElements (elements : List (Node × AnglePart)) : List (Node × AnglePart) :=
  if (elements.filter (!·.2.isLifetime)).isEmpty then elements.filter (·.2.isLifetime)
  else (elements.filter (·.2.isLifetime)).map (fun e => (e.1, e.2.closed)) ++
    elements.filter (!·.2.isLifetime)

theorem map_sortedElements (elements : List (Node × AnglePart)) :
    (sortedElements elements).map (·.2) = AnglePart.sorted (elements.map (·.2)) := by
  unfold sortedElements AnglePart.sorted
  simp only [List.filter_map, Function.comp_def, List.isEmpty_map]
  split
  · rfl
  · rw [List.map_append, List.map_map, List.map_map]
    rfl

/-- What was read for each element does not depend on their order. -/
theorem ran_sortedElements (h : ∀ e ∈ elements, ∃ u, Ran isLifetime element u e) :
    ∀ e ∈ sortedElements elements, ∃ u, Ran isLifetime element u e := by
  unfold sortedElements
  intro e he
  split at he
  · exact h e (List.mem_filter.mp he).1
  · rcases List.mem_append.mp he with he | he
    · obtain ⟨original, horiginal, rfl⟩ := List.mem_map.mp he
      obtain ⟨u, hran⟩ := h original (List.mem_filter.mp horiginal).1
      exact ⟨u, hran.starts, hran.run, hran.lifetime⟩
    · exact h e (List.mem_filter.mp he).1

/-- Without lifetimes nothing moves. -/
theorem head_sortedElements (h : (sortedElements elements).head? = some e) :
    e.2.isLifetime = true ∨ elements.head? = some e := by
  cases hlifetimes : elements.filter (·.2.isLifetime) with
  | nil =>
      right
      have hothers : elements.filter (!·.2.isLifetime) = elements := by
        refine List.filter_eq_self.mpr fun other hother => ?_
        simpa using List.filter_eq_nil_iff.mp hlifetimes other hother
      unfold sortedElements at h
      rw [hothers, hlifetimes] at h
      split at h
      · cases h
      · exact h
  | cons first others =>
      left
      have hfirst : first.2.isLifetime = true :=
        (List.mem_filter.mp (hlifetimes ▸ List.mem_cons_self : first ∈ _)).2
      unfold sortedElements at h
      rw [hlifetimes] at h
      split at h <;> cases h <;> exact hfirst

theorem sortedElements_eq_nil (h : sortedElements elements = []) : elements = [] := by
  unfold sortedElements at h
  split at h
  next hnone =>
      refine List.eq_nil_iff_forall_not_mem.mpr fun e he => ?_
      have hyes := List.filter_eq_nil_iff.mp h e he
      have hno := List.filter_eq_nil_iff.mp (List.isEmpty_iff.mp hnone) e he
      simp_all
  next hsome => exact absurd (List.isEmpty_iff.mpr (List.append_eq_nil_iff.mp h).2) hsome

theorem angleNodes_sortedElements
    (h : ∀ e ∈ elements, e.2.isLifetime = isLifetime e.1) :
    angleNodes isLifetime (sortedElements elements) = angleNodes isLifetime elements := by
  have hfilter : ∀ b : Bool, (elements.map (·.1)).filter (fun node => isLifetime node == b) =
      (elements.filter (·.2.isLifetime == b)).map (·.1) := by
    intro b
    rw [List.filter_map]
    congr 1
    exact List.filter_congr fun e he => by simp [h e he]
  have hyes : (elements.map (·.1)).filter isLifetime =
      (elements.filter (·.2.isLifetime)).map (·.1) := by simpa using hfilter true
  have hno : (elements.map (·.1)).filter (!isLifetime ·) =
      (elements.filter (!·.2.isLifetime)).map (·.1) := by simpa using hfilter false
  have hnodes : (sortedElements elements).map (·.1) = angleNodes isLifetime elements := by
    unfold sortedElements angleNodes
    rw [hyes, hno]
    split
    next hnone => rw [List.isEmpty_iff.mp hnone, List.map_nil, List.append_nil]
    next => rw [List.map_append, List.map_map]; rfl
  unfold angleNodes at hnodes ⊢
  have hempty : ∀ nodes : List Node, nodes.filter (fun _ => false) = [] := by simp
  rw [hnodes]
  simp [List.filter_filter, hempty]

/-- The elements are read between the two brackets. -/
theorem angleElements_eq_some {joint : Bool} {t : List Token} :
    angleElements isLifetime element ⟨.punct '<' joint :: t, []⟩ = some (elements, d) ↔
      ∃ after out, repeated (angleStep isLifetime element) ⟨t, [.punct '<' false]⟩ =
          some (elements, ⟨after, out⟩) ∧ isOp ">" after = true ∧
        d = ⟨after.drop 1, .punct '>' false :: out⟩ := by
  have hopen : op "<" ⟨.punct '<' joint :: t, []⟩ = some ((), ⟨t, [.punct '<' false]⟩) :=
    op_eq_some.mpr ⟨rfl, rfl⟩
  unfold angleElements
  rw [bind_of_eq_some hopen, bind_eq_some]
  constructor
  · rintro ⟨elements, ⟨after, out⟩, hrepeated, hclose⟩
    obtain ⟨_, f, hop, hpure⟩ := bind_eq_some.mp hclose
    obtain ⟨hafter, rfl⟩ := op_eq_some.mp hop
    obtain ⟨rfl, rfl⟩ := pure_eq_some.mp hpure
    exact ⟨after, out, hrepeated, hafter, rfl⟩
  · rintro ⟨after, out, hrepeated, hafter, rfl⟩
    exact ⟨elements, ⟨after, out⟩, hrepeated,
      bind_eq_some.mpr ⟨(), _, op_eq_some.mpr ⟨hafter, rfl⟩, rfl⟩⟩

theorem angleList_eq_some {keepEmpty : Bool} {nodes : List Node} :
    angleList keepEmpty isLifetime element c = some (nodes, d) ↔
      ∃ elements joint t after out, c.rest = .punct '<' joint :: t ∧
        repeated (angleStep isLifetime element) ⟨t, [.punct '<' false]⟩ =
          some (elements, ⟨after, out⟩) ∧ isOp ">" after = true ∧
        nodes = angleNodes isLifetime elements ∧ d.rest = after.drop 1 ∧
        d.written = (angleTokens keepEmpty elements).reverse ++ c.written := by
  obtain ⟨rest, written⟩ := c
  obtain ⟨rest', written'⟩ := d
  rw [angleList_eq, bind_eq_some]
  constructor
  · rintro ⟨⟨elements, tokens⟩, ⟨rest₁, written₁⟩, hcapture, hwrite⟩
    obtain ⟨out, hinside, -, rfl⟩ := capture_eq_some.mp hcapture
    simp only [bind_of_eq_some (write_apply _), pure_eq_some, Cursor.mk.injEq] at hwrite
    obtain ⟨rfl, rfl, rfl⟩ := hwrite
    have hopen : isOp "<" rest = true := by
      obtain ⟨_, e, hop, -⟩ := bind_eq_some.mp hinside
      exact (op_eq_some.mp hop).1
    obtain ⟨joint, t, rfl⟩ := @exists_of_nextIsOp '<' [] _ hopen
    obtain ⟨after, out', hrepeated, hafter, heq⟩ := angleElements_eq_some.mp hinside
    obtain ⟨rfl, -⟩ := Cursor.mk.inj heq
    exact ⟨elements, joint, t, after, out', rfl, hrepeated, hafter, rfl, rfl, rfl⟩
  · rintro ⟨elements, joint, t, after, out, hrest, hrepeated, hafter, rfl, hrest', hwritten⟩
    simp only at hrest hrest' hwritten
    subst hrest hrest' hwritten
    refine ⟨(elements, _), ⟨after.drop 1, written⟩, capture_eq_some.mpr
      ⟨_, angleElements_eq_some.mpr ⟨after, out, hrepeated, hafter, rfl⟩, rfl, rfl⟩, ?_⟩
    simp [bind_of_eq_some (write_apply _)]

/-- The opening bracket of a list in both readings. The second one may meet a lifetime first. -/
def AngleThen (m : Mode) (isLifetime : Node → Bool) (element : Parser Node) (Pre : Follow) : Follow :=
  fun u u' => ∃ joint joint' t t', u = .punct '<' joint :: t ∧ u' = .punct '<' joint' :: t' ∧
    (joint' = true → joint = true ∧ Lead t t') ∧
    ((isOp ">" t = true ∧ isOp ">" t' = true) ∨
      ∃ v, Pre v t' ∧ isOp ">" v = false ∧
        (v = t ∨ (m = .written ∧ ∃ node d, element ⟨v, []⟩ = some (node, d) ∧
          isLifetime node = true)))

/-- What is read as a list in angle brackets starts with one. -/
theorem AngleThen.angleStart (h : AngleThen m isLifetime element Pre u u') : AngleStart u u' := by
  obtain ⟨joint, joint', t, t', rfl, rfl, hjoint, -⟩ := h
  refine ⟨.punct (by decide) _ _ _ _, kind_punct (by decide) _ _, .of_imp fun hyes => ?_⟩
  cases joint' with
  | false => cases hyes
  | true =>
      obtain ⟨rfl, hlead⟩ := hjoint rfl
      change ('<' == '<' && isOp "=" t') = true at hyes
      change ('<' == '<' && isOp "=" t) = true
      rw [(Stable.eq_of_lead hlead : isOp "=" t = _)]
      exact hyes

/-- A list in angle brackets is read the same from the tokens that were written for it. -/
theorem angleList_written
    (hp : Replays .written size 1 (fun _ => PartEnds .written) element element' Pre)
    (hlead : ∀ u u', Pre u u' → Lead u u') :
    Replays .written (size + 1) 1 (fun _ => Any) (angleList true isLifetime element)
      (angleList true isLifetime element')
      (AngleThen .written isLifetime element Pre) := by
  intro c nodes d hrun
  obtain ⟨elements, joint, t, after, out, hrest, hrepeated, hafter, rfl, hrest', hwritten⟩ :=
    angleList_eq_some.mp hrun
  obtain ⟨-, hrounds⟩ := repeated_eq_some.mp hrepeated
  obtain ⟨-, hran, hhead, hseparated, hnone⟩ := hrounds.ran
  obtain ⟨read, hread⟩ := hrounds.reads hp
  obtain ⟨close, others, rfl⟩ := @exists_of_nextIsOp '>' [] _ hafter
  change t = read ++ .punct '>' close :: others at hread
  refine ⟨.punct '<' joint :: read ++ [.punct '>' close], angleTokens true elements,
    by rw [hrest, hrest', hread]; simp, hwritten, by simp,
    by simp [angleTokens, Token.operator, Token.operatorChars], fun rest _ hbound => ?_⟩
  have hlifetimes : ∀ e ∈ elements, e.2.isLifetime = isLifetime e.1 := by
    intro e he
    obtain ⟨u, hu⟩ := hran e he
    exact hu.lifetime
  -- The second reading meets the sorted elements.
  have hsorted := AnglePart.separated_sorted hseparated
  have horder : AnglePart.inOrder (elements.map (·.2)) =
      ((sortedElements elements).map (·.2)).flatMap AnglePart.written := by
    rw [map_sortedElements, AnglePart.inOrder_eq hseparated]
  have hagain : AnglePart.inOrder ((sortedElements elements).map (·.2)) =
      AnglePart.inOrder (elements.map (·.2)) := by
    rw [map_sortedElements, AnglePart.inOrder_eq hsorted, AnglePart.sorted_sorted,
      AnglePart.inOrder_eq hseparated]
  have htokens : angleTokens true (sortedElements elements) = angleTokens true elements := by
    rw [angleTokens, hagain, angleTokens, Bool.true_or, Bool.true_or]
  rw [← map_sortedElements] at hsorted
  have hpicked : Mode.written.pick (.punct '<' joint :: read ++ [.punct '>' close])
      (angleTokens true elements) ++ rest = .punct '<' false ::
        (((sortedElements elements).map (·.2)).flatMap AnglePart.written ++
          .punct '>' false :: rest) := by
    rw [Mode.pick_written, angleTokens, Bool.true_or, if_pos rfl, horder]
    simp [Token.operator, Token.operatorChars]
  rw [hpicked] at hbound ⊢
  rw [Token.sizeAll, show Token.size (.punct '<' false) = 1 from rfl] at hbound
  obtain ⟨hmany, z', hrounds'⟩ := Rounds.reread hp hlead
    (ran_sortedElements hran) hsorted (.punct '>' false :: rest) rfl (by omega) [.punct '<' false]
  refine ⟨⟨joint, false, t, _, hrest, rfl, fun h => absurd h Bool.false_ne_true, ?_⟩, fun z => ?_⟩
  · cases hfirst : sortedElements elements with
    | nil =>
        obtain rfl := sortedElements_eq_nil hfirst
        exact .inl ⟨by rw [show t = _ from hnone rfl]; rfl, rfl⟩
    | cons e others =>
        right
        have hhead' : (sortedElements elements).head? = some e := by rw [hfirst]; rfl
        rw [hfirst] at hsorted hbound
        obtain ⟨after, hafter, hends, -⟩ := after_element hsorted (.punct '>' false :: rest) rfl
        rw [hafter] at hbound ⊢
        have hplace : ∀ {v}, Ran isLifetime element v e → Pre v (e.2.tokens ++ after) :=
          fun hv => ((hv.reread hp).2 after hends (by omega)).1
        rcases head_sortedElements hhead' with hlifetime | hsame
        · obtain ⟨v, hv⟩ := ran_sortedElements hran e (hfirst ▸ List.mem_cons_self)
          obtain ⟨_, hrunv, -⟩ := hv.run
          exact ⟨v, hplace hv, hv.starts, .inr ⟨rfl, _, _, hrunv, hv.lifetime.symm.trans hlifetime⟩⟩
        · have hv := hhead e hsame
          exact ⟨t, hplace hv, hv.starts, .inl rfl⟩
  · refine angleList_eq_some.mpr ⟨sortedElements elements, false, _, .punct '>' false :: rest, z',
      rfl, repeated_eq_some.mpr ⟨?_, hrounds'⟩, rfl, ?_, rfl, ?_⟩
    · rw [List.length_append]
      omega
    · rw [angleNodes_sortedElements hlifetimes]
    · rw [htokens]

/-- From the same tokens, one more element is read the same again. -/
theorem angleStep_verbatim
    (hp : Replays .verbatim size 1 (fun _ => PartEnds .verbatim) element element' Pre)
    (hlead : ∀ u u', Pre u u' → Lead u u') :
    Replays .verbatim size 0 (OnSome (fun _ => Either (isOp ">") CloseEnds Pre) CloseEnds)
      (angleStep isLifetime element) (angleStep isLifetime element')
      (Either (isOp ">") CloseEnds Pre) := by
  have hcomma : ∀ e : Node × AnglePart, Replays .verbatim size 0
      (OnSome (fun _ => Either (isOp ">") CloseEnds Pre) CloseEnds)
      (do op ","; return some e) (do op ","; return some e)
      fun u u' => isOp "," u = true ∧ Lead u u' :=
    fun e => (op_known ",").forget.result fun _ _ _ _ => trivial
  unfold angleStep
  refine .choice ?_ ?_ ?_
  · exact (Replays.pure none).before fun u u' h hq => .yes hq h
  · refine ((capture_verbatim hp).bind
      (Either (isOp ">") CloseEnds fun u u' => isOp "," u = true ∧ Lead u u') ?_ ?_).before
      fun u u' h hq => .no hq h
    · rintro ⟨node, tokens⟩
      refine .each (fun b => ?_) ?_
      · cases b with
        | false => exact (hcomma _).before fun u u' h hq => .no hq h
        | true => exact (Replays.pure _).before fun u u' h hq => .yes hq (h.1 hq)
      · exact fun u u' h => h.elim (fun _ h => (Stable.eq_of_lead h.2).symm)
          fun _ h => (Stable.eq_of_lead h.2).symm
    · intro a u u' h
      refine h.elim (fun hq h => ⟨endsPart_iff.mpr (.inr hq), ?_, fun _ => h.2⟩)
        fun hq h => ⟨endsPart_iff.mpr (.inl h.1), ?_, fun _ => h.2⟩
      · exact endsPart_iff.mpr (.inr ((Stable.eq_of_lead h.2).symm.trans hq))
      · exact endsPart_iff.mpr (.inl ((Stable.eq_of_lead h.2).symm.trans h.1))
  · intro u u' h
    exact h.elim (fun _ h => (Stable.eq_of_lead h.2).symm)
      fun _ h => (Stable.eq_of_lead (hlead u u' h)).symm

/-- A list in angle brackets is read the same from its own tokens. -/
theorem angleList_verbatim
    (hp : Replays .verbatim size 1 (fun _ => PartEnds .verbatim) element element' Pre)
    (hlead : ∀ u u', Pre u u' → Lead u u') :
    Replays .verbatim (size + 1) 1 (fun _ => Any) (angleList true isLifetime element)
      (angleList true isLifetime element')
      (AngleThen .verbatim isLifetime element Pre) := by
  intro c nodes d hrun
  obtain ⟨elements, joint, t, after, out, hrest, hrepeated, hafter, rfl, hrest', hwritten⟩ :=
    angleList_eq_some.mp hrun
  obtain ⟨-, hrounds⟩ := repeated_eq_some.mp hrepeated
  -- Whether a comma is taken or not, the element in front of it was read.
  have hadvance : ∀ c e d, angleStep isLifetime element c = some (some e, d) →
      Advances .verbatim c d := by
    intro c e d hstep
    obtain ⟨-, -, rest, hrun, hends⟩ := angleStep_eq_some.mp hstep
    have hfirst := (hp.advances hrun).1
    refine ⟨?_, nofun⟩
    rcases hends with ⟨-, -, rfl⟩ | ⟨-, -, -, rfl⟩
    · exact hfirst
    · simp only [List.length_drop] at hfirst ⊢
      omega
  obtain ⟨read, written, hread, hout, hmany, hreplay⟩ :=
    hrounds.replayed (angleStep_verbatim hp hlead) hadvance
  obtain ⟨close, others, rfl⟩ := @exists_of_nextIsOp '>' [] _ hafter
  change t = read ++ .punct '>' close :: others at hread
  refine ⟨.punct '<' joint :: read ++ [.punct '>' close], angleTokens true elements,
    by rw [hrest, hrest', hread]; simp, hwritten, by simp,
    by simp [angleTokens, Token.operator, Token.operatorChars], fun rest _ hbound => ?_⟩
  have hpicked : Mode.verbatim.pick (.punct '<' joint :: read ++ [.punct '>' close])
      (angleTokens true elements) ++ rest =
        .punct '<' joint :: (read ++ .punct '>' close :: rest) := by simp
  rw [hpicked] at hbound ⊢
  rw [Token.sizeAll, show Token.size (.punct '<' joint) = 1 from rfl] at hbound
  obtain ⟨hinv, hagain⟩ := hreplay (.punct '>' close :: rest)
    ⟨hafter, .punct (by decide) _ _ _ _⟩ (by rw [Mode.pick_verbatim]; omega)
  rw [Mode.pick_verbatim] at hinv hagain hmany
  have hinvLead : Lead t (read ++ .punct '>' close :: rest) :=
    hinv.elim (fun _ h => h.2) fun _ h => hlead _ _ h
  refine ⟨⟨joint, joint, t, _, hrest, rfl, fun h => ⟨h, hinvLead⟩, ?_⟩, fun z => ?_⟩
  · refine hinv.elim (fun hq h => .inl ⟨hq, (Stable.eq_of_lead h.2).symm.trans hq⟩) ?_
    exact fun hq h => .inr ⟨t, h, hq, .inl rfl⟩
  · refine angleList_eq_some.mpr ⟨elements, joint, _, .punct '>' close :: rest, _,
      rfl, repeated_eq_some.mpr ⟨?_, hagain _⟩, rfl, rfl, rfl, rfl⟩
    rw [List.length_append]
    omega

/-- A list in angle brackets is read the same again, from its own tokens and from those written for
it. -/
theorem angleList_replays (hp : Replays m size 1 (fun _ => PartEnds m) element element' Pre)
    (hlead : ∀ u u', Pre u u' → Lead u u') :
    Replays m (size + 1) 1 (fun _ => Any) (angleList true isLifetime element)
      (angleList true isLifetime element') (AngleThen m isLifetime element Pre) := by
  cases m with
  | written => exact angleList_written hp hlead
  | verbatim => exact angleList_verbatim hp hlead

end Elements

/-! ## Generic arguments -/

/-- Constant arguments are read the same again. -/
theorem constArgument_closed (hg : Knot m size g g') :
    Replays m (size + 1) 1 (fun _ => Any) (constArgument g) (constArgument g') Lead := by
  unfold constArgument
  refine .ite (fun _ _ h => h) literal_closed (.ite (fun _ _ h => h) ident_closed.map ?_)
  exact (blockWithAttrs_closed hg).map

instance : Stable isConstArgument := inferInstanceAs (Stable (isLiteral.or (isGroup .brace)))

/-- What may follow a type that is a generic argument, or that names one. -/
def ArgumentEnds (m : Mode) : Follow := fun u u' =>
  PartEnds m u u' ∨ (isOp "=" u = true ∧ Lead u u') ∨ Colon u u'

theorem ArgumentEnds.typeEnds (h : ArgumentEnds m u u') : TypeEnds u u' := by
  rcases h with h | ⟨hassign, h⟩ | h
  · exact h.typeEnds
  · refine h.typeEnds ?_
    rw [kind_of_isOp (rfl : "=".toList = ['=']) (by decide) hassign]
    rfl
  · exact h.typeEnds

/-- The bounds of an associated type among generic arguments. -/
theorem argumentBounds_replays (hg : ∀ m, Knot m size g g') :
    Replays m (size + 1) 0 (fun _ => PartEnds m) (plusList endsPart (bound g ⟨false, true⟩))
      (plusList endsPart (bound g' ⟨false, true⟩)) (Either endsPart (PartEnds m) (BoundStart m)) :=
  boundList_replays hg _ _ _ (fun _ _ h => h.typeEnds) (fun _ _ hno h => (h.headed rfl rfl).trans hno)
    fun _ _ _ h => h.right

/-- The type, constant or bounds that a generic argument gives to a name. -/
theorem argumentRest_replays (hg : ∀ m, Knot m size g g') (ty : Node) :
    Replays m size 0 (fun _ => PartEnds m)
      (match soleSegment? ty with
        | none => return ty
        | some (name, own) => do
          if ← op? "=" then
            if ← peek isConstArgument then return .bindConst name own (← constArgument g)
            else return .bindType name own (← g (.ty true))
          else if ← op? ":" then
            return .bindBounds name own (← plusList endsPart (bound g ⟨false, true⟩))
          else return ty)
      (match soleSegment? ty with
        | none => return ty
        | some (name, own) => do
          if ← op? "=" then
            if ← peek isConstArgument then return .bindConst name own (← constArgument g')
            else return .bindType name own (← g' (.ty true))
          else if ← op? ":" then
            return .bindBounds name own (← plusList endsPart (bound g' ⟨false, true⟩))
          else return ty) (ArgumentEnds m) := by
  have htype := (hg m).ty true (PartEnds m) fun _ _ h => h.typeEnds
  have hconst : Replays m size 1 (fun _ => PartEnds m) (constArgument g) (constArgument g') Lead :=
    (constArgument_closed (hg m)).smaller.after fun _ _ _ _ => trivial
  split
  · exact (Replays.pure ty).before fun _ _ h => .inl h
  next name own _ =>
      refine .choiceOp ?_ ?_ ?_
      · refine ((op_known "=").seq Lead fun _ => .ite (fun _ _ h => h) ?_ ?_).before
          fun u u' h _ => .inr (.inl h)
        · exact hconst.forget.wrap
        · exact htype.forget.wrap.before fun _ _ h => h.toLead
      · refine (Replays.choiceOp ?_ ?_ ?_ : Replays _ _ _ _ _ _
          fun u u' => PartEnds m u u' ∨ Colon u u').before fun u u' h _ => h.imp id .inr
        · refine ((op_colon_replays (Either endsPart (PartEnds m) (BoundStart m)) ?_).bind _
            (fun _ => (argumentBounds_replays hg).smaller.wrap) fun _ _ _ h => h).before
            fun u u' h _ => .inr h.toColon
          rintro r r' h rfl
          exact h.elim (fun _ h => h.lead rfl) fun _ h => h.lead
        · exact (Replays.pure ty).before fun u u' h _ => .inl h
        · rintro u u' (h | h)
          · rw [isOp_of_endsPart h.left rfl (by decide), isOp_of_endsPart h.right rfl (by decide)]
          · exact Headed.eq_of_kind_eq (h.kind_right.trans h.kind_left.symm)
      · -- Both readings see an equals sign or neither does: the end of an argument is none, and
        -- neither is a colon.
        rintro u u' (h | ⟨-, h⟩ | h)
        · rw [isOp_of_endsPart h.left rfl (by decide), isOp_of_endsPart h.right rfl (by decide)]
        · exact (Stable.eq_of_lead h).symm
        · exact Headed.eq_of_kind_eq (h.kind_right.trans h.kind_left.symm)

/-- Whether a lifetime comes next that is a generic argument by itself. -/
def isLoneLifetime : Peek := isLifetime.butNot (second (isOp "+"))

/-- Generic arguments are read the same again. -/
theorem genericArgument_replays (hg : ∀ m, Knot m size g g') :
    Replays m size 1 (fun _ => PartEnds m) (genericArgument g) (genericArgument g') Lead := by
  have hconst : Replays m size 1 (fun _ => PartEnds m)
      (do return Node.constArgument (← constArgument g))
      (do return Node.constArgument (← constArgument g')) Lead :=
    ((constArgument_closed (hg m)).smaller.after fun _ _ _ _ => trivial).wrap
  have htype := ((hg m).ty true (ArgumentEnds m) fun _ _ h => h.typeEnds).keep _
    (argumentRest_replays hg) fun _ _ _ h => h
  have hnot : ∀ v, isLifetime v = false → isLoneLifetime v = false := by
    intro v hv
    rw [isLoneLifetime, Peek.butNot, hv, Bool.false_and]
  have hlifetime : ∀ v, isConstArgument v = true → isLifetime v = false := by
    intro v hv
    cases hlifetime : isLifetime v with
    | false => rfl
    | true =>
        obtain ⟨name, rest, rfl⟩ := exists_of_isLifetime hlifetime
        cases hv
  unfold genericArgument
  refine (Replays.choice ?_ ?_ fun _ _ h => h.2 : Replays _ _ _ _ _ _
    fun u u' => Lead u u' ∧ isLoneLifetime u' = isLoneLifetime u).before fun _ _ h => h.1
  · refine (Replays.wrap (lifetime_replays (PartEnds m))).before ?_
    rintro u u' ⟨name, r, r', rfl, rfl, hends⟩ hlone
    refine ⟨.lifetime _ _ _, Eq.trans ?_ hlone.symm⟩
    change (true && !isOp "+" r') = true
    rw [isOp_of_endsPart hends.right rfl (by decide)]
    rfl
  · refine (Replays.choice ?_ ?_ fun u u' h => (Stable.eq_of_lead h.1).symm :
      Replays _ _ _ _ _ _ fun u u' => Lead u u' ∧ isLoneLifetime u' = false).before
      fun u u' h hno => ⟨h.1, h.2.trans hno.symm⟩
    · refine hconst.before fun u u' h hconst => ⟨h, hnot _ ?_⟩
      exact (Stable.eq_of_lead h).symm.trans (hlifetime u hconst)
    · refine htype.before fun u u' h _ => ⟨h.toLead, ?_⟩
      cases hyes : isLifetime u with
      | false => exact hnot _ ((Stable.eq_of_lead h.toLead).symm.trans hyes)
      | true => rw [isLoneLifetime, Peek.butNot, h.lifetime hyes, Bool.not_true, Bool.and_false]

/-- Lists of generic arguments are read the same again. -/
theorem angleArguments_replays (hg : ∀ m, Knot m size g g') :
    Replays m (size + 1) 1 (fun _ => Any) (angleArguments g) (angleArguments g') AngleStart := by
  unfold angleArguments
  exact (angleList_replays (genericArgument_replays hg) fun _ _ h => h).wrap.before
    fun _ _ h => h.angleStart

end ActionUnits.Source
