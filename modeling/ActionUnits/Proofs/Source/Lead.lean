import ActionUnits.Source.Grammar.Attribute

/-! # What a parser sees first

Parsers ask about the tokens in front of them. Two sequences of tokens agree in
their lead if the questions that look at one token, and the few that look further
in a fixed way, have the same answers for both. Spacing between the characters of
operators is not part of a lead.
-/

namespace ActionUnits.Source

/-- The first token of a sequence, as far as questions can tell. -/
inductive Kind where
  | nothing
  | word (name : Ident)
  | punct (char : Char)
  | lifetime (name : Ident)
  | literal (isNumeral isString : Bool)
  | group (delimiter : Delimiter)
deriving DecidableEq

/-- The kind of the first token; a lifetime counts as one. -/
def kind : List Token → Kind
  | [] => .nothing
  | .ident name :: _ => .word name
  | .punct '\'' true :: .ident name :: _ => .lifetime name
  | .punct char _ :: _ => .punct char
  | .literal text :: _ => .literal (isNumeral text) (isString [.literal text])
  | .group delimiter _ :: _ => .group delimiter

theorem kind_punct {char : Char} (hchar : char ≠ '\'') (joint : Bool) (rest : List Token) :
    kind (.punct char joint :: rest) = .punct char := by
  unfold kind
  split
  case h_3 h =>
      injection h with h
      injection h with h
      exact absurd h hchar
  all_goals simp_all

/-- Every sequence starts in one of these ways. -/
theorem kind_cases (u : List Token) :
    u = [] ∨ (∃ name rest, u = .ident name :: rest) ∨
      (∃ name rest, u = .punct '\'' true :: .ident name :: rest) ∨
      (∃ char joint rest, u = .punct char joint :: rest ∧ kind u = .punct char) ∨
      (∃ text rest, u = .literal text :: rest) ∨
      ∃ delimiter body rest, u = .group delimiter body :: rest := by
  unfold kind
  split <;> simp

/-! ## Questions that the kind answers -/

/-- A question for which only the kind of the first token matters. -/
class Headed (question : Peek) : Prop where
  eq_of_kind_eq : ∀ {u u'}, kind u = kind u' → question u = question u'

/-- A question answered from the first token's kind looks no further. -/
theorem Headed.of_kind (answer : Kind → Bool) {question : Peek}
    (h : ∀ u, question u = answer (kind u)) : Headed question where
  eq_of_kind_eq := by
    intro u u' hkind
    rw [h, h, hkind]

/-- A question is answered by the kind if it is so for each way in which tokens can start. -/
theorem Headed.of_cases (answer : Kind → Bool) {question : Peek}
    (hnil : question [] = answer .nothing)
    (hword : ∀ name rest, question (.ident name :: rest) = answer (.word name))
    (hlifetime : ∀ name rest,
      question (.punct '\'' true :: .ident name :: rest) = answer (.lifetime name))
    (hpunct : ∀ char joint rest, kind (.punct char joint :: rest) = .punct char →
      question (.punct char joint :: rest) = answer (.punct char))
    (hliteral : ∀ text rest, question (.literal text :: rest) =
      answer (.literal (isNumeral text) (isString [.literal text])))
    (hgroup : ∀ delimiter body rest,
      question (.group delimiter body :: rest) = answer (.group delimiter)) :
    Headed question := by
  refine .of_kind answer fun u => ?_
  rcases kind_cases u with rfl | ⟨name, rest, rfl⟩ | ⟨name, rest, rfl⟩ |
    ⟨char, joint, rest, rfl, hkind⟩ | ⟨text, rest, rfl⟩ | ⟨delimiter, body, rest, rfl⟩
  · exact hnil
  · exact hword name rest
  · exact hlifetime name rest
  · rw [hkind, hpunct char joint rest hkind]
  · exact hliteral text rest
  · exact hgroup delimiter body rest

instance (text : String) : Headed (isWord text) :=
  .of_cases (fun | .word name => name.text == text | _ => false) rfl (fun _ _ => rfl)
    (fun _ _ => rfl) (fun _ _ _ _ => rfl) (fun _ _ => rfl) (fun _ _ _ => rfl)

instance : Headed isIdent :=
  .of_cases (fun | .word name => !isKeyword name | _ => false) rfl (fun _ _ => rfl)
    (fun _ _ => rfl) (fun _ _ _ _ => rfl) (fun _ _ => rfl) (fun _ _ _ => rfl)

instance : Headed isAnyWord :=
  .of_cases (fun | .word _ => true | _ => false) rfl (fun _ _ => rfl)
    (fun _ _ => rfl) (fun _ _ _ _ => rfl) (fun _ _ => rfl) (fun _ _ _ => rfl)

instance (delimiter : Delimiter) : Headed (isGroup delimiter) :=
  .of_cases (fun | .group d => d == delimiter | _ => false) rfl (fun _ _ => rfl)
    (fun _ _ => rfl) (fun _ _ _ _ => rfl) (fun _ _ => rfl) (fun _ _ _ => rfl)

instance : Headed isString :=
  .of_cases (fun | .literal _ isString => isString | _ => false) rfl (fun _ _ => rfl)
    (fun _ _ => rfl) (fun _ _ _ _ => rfl) (fun _ _ => rfl) (fun _ _ _ => rfl)

instance : Headed List.isEmpty :=
  .of_cases (fun | .nothing => true | _ => false) rfl (fun _ _ => rfl)
    (fun _ _ => rfl) (fun _ _ _ _ => rfl) (fun _ _ => rfl) (fun _ _ _ => rfl)

instance : Headed isLifetime := by
  refine .of_cases (fun | .lifetime _ => true | _ => false) rfl (fun _ _ => rfl) (fun _ _ => rfl)
    ?_ (fun _ _ => rfl) (fun _ _ _ => rfl)
  intro char joint rest hkind
  unfold isLifetime
  split
  next h =>
    rw [h] at hkind
    cases hkind
  next => rfl

/-- A question about a single mark looks at the first token only. -/
theorem Headed.single {text : String} {char : Char} (htext : text.toList = [char])
    (hchar : char ≠ '\'') : Headed (isOp text) := by
  unfold isOp
  rw [htext]
  refine .of_cases (fun kind => decide (kind = .punct char)) rfl (fun _ _ => rfl) ?_ ?_
    (fun _ _ => rfl) (fun _ _ _ => rfl)
  · intro name rest
    simp [nextIsOp, hchar]
  · intro other joint rest hkind
    by_cases h : char = other
    · simp [nextIsOp, h]
    · simp [nextIsOp, h, Ne.symm h]

instance : Headed (isOp "!") := .single rfl (by decide)
instance : Headed (isOp "#") := .single rfl (by decide)
instance : Headed (isOp "%") := .single rfl (by decide)
instance : Headed (isOp "&") := .single rfl (by decide)
instance : Headed (isOp "*") := .single rfl (by decide)
instance : Headed (isOp "+") := .single rfl (by decide)
instance : Headed (isOp ",") := .single rfl (by decide)
instance : Headed (isOp "-") := .single rfl (by decide)
instance : Headed (isOp ".") := .single rfl (by decide)
instance : Headed (isOp "/") := .single rfl (by decide)
instance : Headed (isOp ":") := .single rfl (by decide)
instance : Headed (isOp ";") := .single rfl (by decide)
instance : Headed (isOp "<") := .single rfl (by decide)
instance : Headed (isOp "=") := .single rfl (by decide)
instance : Headed (isOp ">") := .single rfl (by decide)
instance : Headed (isOp "?") := .single rfl (by decide)
instance : Headed (isOp "@") := .single rfl (by decide)
instance : Headed (isOp "^") := .single rfl (by decide)
instance : Headed (isOp "|") := .single rfl (by decide)

instance {p q : Peek} [hp : Headed p] [hq : Headed q] : Headed (p.or q) where
  eq_of_kind_eq h := by rw [Peek.or, Peek.or, hp.eq_of_kind_eq h, hq.eq_of_kind_eq h]

instance : Headed (anyOf []) where
  eq_of_kind_eq _ := rfl

instance {p : Peek} {ps : List Peek} [hp : Headed p] [hps : Headed (anyOf ps)] :
    Headed (anyOf (p :: ps)) where
  eq_of_kind_eq {u u'} h := by
    change (p u || anyOf ps u) = (p u' || anyOf ps u')
    rw [hp.eq_of_kind_eq h, hps.eq_of_kind_eq h]

instance (words : List String) : Headed (isOneOf words) where
  eq_of_kind_eq {u u'} h := by
    have hwords : (isWord · u) = (isWord · u') := by
      funext text
      exact Headed.eq_of_kind_eq h
    rw [isOneOf, isOneOf, hwords]

/-! ## Leads -/

/-- Sequences that agree in what questions can tell about their starts. -/
structure Lead (u u' : List Token) : Prop where
  kind_eq : kind u = kind u'
  literal_eq : isLiteral u = isLiteral u'
  path_eq : isOp "::" u = isOp "::" u'
  dots_eq : isOp ".." u = isOp ".." u'
  second_eq : kind u = .punct ':' → kind u.tail = kind u'.tail
  third_eq : isOp "::" u = true → kind (u.drop 2) = kind (u'.drop 2)

/-- A question that a lead answers. -/
class Stable (question : Peek) : Prop where
  eq_of_lead : ∀ {u u'}, Lead u u' → question u = question u'

instance {question : Peek} [h : Headed question] : Stable question where
  eq_of_lead hlead := h.eq_of_kind_eq hlead.kind_eq

instance : Stable isLiteral := ⟨fun h => h.literal_eq⟩
instance : Stable (isOp "::") := ⟨fun h => h.path_eq⟩
instance : Stable (isOp "..") := ⟨fun h => h.dots_eq⟩

instance {p q : Peek} [hp : Stable p] [hq : Stable q] : Stable (p.and q) where
  eq_of_lead h := by rw [Peek.and, Peek.and, hp.eq_of_lead h, hq.eq_of_lead h]

instance {p q : Peek} [hp : Stable p] [hq : Stable q] : Stable (p.or q) where
  eq_of_lead h := by rw [Peek.or, Peek.or, hp.eq_of_lead h, hq.eq_of_lead h]

instance {p q : Peek} [hp : Stable p] [hq : Stable q] : Stable (p.butNot q) where
  eq_of_lead h := by rw [Peek.butNot, Peek.butNot, hp.eq_of_lead h, hq.eq_of_lead h]

instance {p : Peek} {ps : List Peek} [hp : Stable p] [hps : Stable (anyOf ps)] :
    Stable (anyOf (p :: ps)) where
  eq_of_lead {u u'} h := by
    change (p u || anyOf ps u) = (p u' || anyOf ps u')
    rw [hp.eq_of_lead h, hps.eq_of_lead h]

namespace Lead

theorem refl (u : List Token) : Lead u u :=
  ⟨rfl, rfl, rfl, rfl, fun _ => rfl, fun _ => rfl⟩

theorem word (name : Ident) (rest rest' : List Token) :
    Lead (.ident name :: rest) (.ident name :: rest') :=
  ⟨rfl, rfl, rfl, rfl, nofun, nofun⟩

theorem group (delimiter : Delimiter) (body body' rest rest' : List Token) :
    Lead (.group delimiter body :: rest) (.group delimiter body' :: rest') :=
  ⟨rfl, rfl, rfl, rfl, nofun, nofun⟩

theorem literal {text text' : String} (hnumeral : isNumeral text = isNumeral text')
    (hstring : isString [.literal text] = isString [.literal text']) (rest rest' : List Token) :
    Lead (.literal text :: rest) (.literal text' :: rest') :=
  ⟨by simp only [kind, hnumeral, hstring], rfl, rfl, rfl, nofun, nofun⟩

theorem lifetime (name : Ident) (rest rest' : List Token) :
    Lead (.punct '\'' true :: .ident name :: rest) (.punct '\'' true :: .ident name :: rest') :=
  ⟨rfl, rfl, rfl, rfl, nofun, nofun⟩

/-- A punctuation character that starts no question about further tokens. -/
theorem punct {char : Char} (hchar : char ∉ ['\'', ':', '.', '-']) (joint joint' : Bool)
    (rest rest' : List Token) :
    Lead (.punct char joint :: rest) (.punct char joint' :: rest') := by
  simp only [List.mem_cons, List.not_mem_nil, or_false, not_or] at hchar
  obtain ⟨hquote, hcolon, hpoint, hminus⟩ := hchar
  have hop : ∀ joint rest, isOp "::" (.punct char joint :: rest) = false ∧
      isOp ".." (.punct char joint :: rest) = false := by
    intro joint rest
    cases joint <;> simp [isOp, nextIsOp, Ne.symm hcolon, Ne.symm hpoint]
  refine ⟨?_, ?_, ?_, ?_, ?_, ?_⟩
  · rw [kind_punct hquote, kind_punct hquote]
  · simp [isLiteral, hminus]
  · rw [(hop _ _).1, (hop _ _).1]
  · rw [(hop _ _).2, (hop _ _).2]
  · rw [kind_punct hquote]
    simp [hcolon]
  · rw [(hop _ _).1]
    nofun

end Lead

end ActionUnits.Source
