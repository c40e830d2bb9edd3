import ActionUnits.Proofs.Aliases
import ActionUnits.Proofs.Source.Splice.Grammar

/-! # Reading tokens that are put together

What is written for a unit is put together from fixed words and from tokens that
were read before. A parser reads a value off such tokens if it gives the value and
stops where they end, whatever has been written by then. Readings are put together
as the tokens are: one part after the other, a group by its contents, a list by its
elements.
-/

namespace ActionUnits.Source

variable {α β : Type} {p : Parser α} {u v rest : List Token} {a : α} {b : β}

/-- A parser reads a value off the tokens `u` and stops in front of `rest`. -/
def Reads (p : Parser α) (u : List Token) (a : α) (rest : List Token) : Prop :=
  ∀ z, ∃ z', p ⟨u, z⟩ = some (a, ⟨rest, z'⟩)

namespace Reads

theorem of_eq {written : List Token → List Token}
    (h : ∀ z, p ⟨u, z⟩ = some (a, ⟨rest, written z⟩)) : Reads p u a rest :=
  fun z => ⟨written z, h z⟩

/-- What two parsers do alike on the tokens, they read alike. -/
theorem congr {q : Parser α} (heq : ∀ z, p ⟨u, z⟩ = q ⟨u, z⟩) (h : Reads q u a rest) :
    Reads p u a rest :=
  fun z => (h z).imp fun _ hrun => (heq z).trans hrun

/-! ## Sequencing -/

theorem pure (a : α) (u : List Token) : Reads (pure a) u a u :=
  fun z => ⟨z, rfl⟩

/-- One reading after the other. -/
theorem bind {f : α → Parser β} (hp : Reads p u a v) (hf : Reads (f a) v b rest) :
    Reads (p >>= f) u b rest := by
  intro z
  obtain ⟨z₁, hrun⟩ := hp z
  obtain ⟨z₂, hmore⟩ := hf z₁
  exact ⟨z₂, (bind_of_eq_some hrun f).trans hmore⟩

theorem andThen {q : Parser β} (hp : Reads p u a v) (hq : Reads q v b rest) :
    Reads (p >>= fun _ => q) u b rest :=
  hp.bind hq

theorem map (f : α → β) (hp : Reads p u a rest) :
    Reads (p >>= fun a => Pure.pure (f a)) u (f a) rest :=
  hp.bind (pure _ _)

/-- The state of a reading may be kept, but not looked into. -/
theorem get {f : Cursor → Parser β} (h : ∀ c : Cursor, c.rest = u → Reads (f c) u b rest) :
    Reads (MonadState.get >>= f) u b rest := by
  intro z
  obtain ⟨z', hrun⟩ := h ⟨u, z⟩ rfl z
  exact ⟨z', (bind_of_eq_some get_apply f).trans hrun⟩

/-! ## Questions -/

/-- A question about what comes next costs nothing. -/
theorem peek {question : Peek} {f : Bool → Parser β} (h : Reads (f (question u)) u b rest) :
    Reads (Source.peek question >>= f) u b rest :=
  congr (fun _ => peek_bind_apply question f) h

theorem yes {question : Peek} {f : Bool → Parser β} (hyes : question u = true)
    (h : Reads (f true) u b rest) : Reads (Source.peek question >>= f) u b rest :=
  peek (hyes ▸ h)

theorem no {question : Peek} {f : Bool → Parser β} (hno : question u = false)
    (h : Reads (f false) u b rest) : Reads (Source.peek question >>= f) u b rest :=
  peek (hno ▸ h)

theorem op?_no {text : String} (h : isOp text u = false) : Reads (op? text) u false u :=
  no h (pure _ _)

theorem word?_no {text : String} (h : isWord text u = false) : Reads (word? text) u false u :=
  no h (pure _ _)

theorem when?_no {question : Peek} (h : question u = false) :
    Reads (when? question p) u none u :=
  no h (pure _ _)

theorem when?_yes {question : Peek} (h : question u = true) (hp : Reads p u a rest) :
    Reads (when? question p) u (some a) rest :=
  yes h (hp.map some)

/-! ## Words and signs -/

theorem require {condition : Bool} (h : condition = true) (u : List Token) :
    Reads (Source.require condition) u () u := by
  rw [h]
  exact pure _ _

theorem anyWord (name : Ident) (u : List Token) : Reads anyWord (.ident name :: u) name u :=
  fun _ => ⟨_, rfl⟩

theorem ident {name : Ident} (hname : isKeyword name = false) (rest : List Token) :
    Reads ident (.ident name :: rest) name rest := by
  have hident : isIdent (.ident name :: rest) = true := isIdent_of_not_keyword hname
  exact yes hident ((require rfl _).bind (anyWord name rest))

theorem word (text : String) (u : List Token) :
    Reads (Source.word text) (.word text :: u) () u := by
  have hword : isWord text (.word text :: u) = true := beq_self_eq_true text
  exact yes hword ((require rfl _).bind ((anyWord ⟨text⟩ u).map fun _ => ()))

theorem word?_yes (text : String) (u : List Token) :
    Reads (word? text) (.word text :: u) true u := by
  have hword : isWord text (.word text :: u) = true := beq_self_eq_true text
  exact yes hword ((word text u).map fun _ => true)

theorem isOp_sign {text : String} {char : Char} (htext : text.toList = [char]) (joint : Bool)
    (u : List Token) : isOp text (.punct char joint :: u) = true := by
  rw [isOp, htext]
  exact beq_self_eq_true char

/-- An operator of one sign. -/
theorem sign {text : String} {char : Char} (htext : text.toList = [char]) (joint : Bool)
    (u : List Token) : Reads (op text) (.punct char joint :: u) () u := by
  have hlength : text.length = 1 := by
    rw [← String.length_toList, htext, List.length_singleton]
  refine yes (isOp_sign htext joint u) fun z => ⟨(Token.operator text).reverse ++ z, ?_⟩
  rw [hlength]
  rfl

theorem sign?_yes {text : String} {char : Char} (htext : text.toList = [char]) (joint : Bool)
    (u : List Token) : Reads (op? text) (.punct char joint :: u) true u :=
  yes (isOp_sign htext joint u) ((sign htext joint u).map fun _ => true)

theorem pathSeparator (u : List Token) :
    Reads (op "::") (.punct ':' true :: .punct ':' false :: u) () u :=
  fun _ => ⟨_, rfl⟩

theorem pathSeparator?_yes (u : List Token) :
    Reads (op? "::") (.punct ':' true :: .punct ':' false :: u) true u :=
  yes rfl ((pathSeparator u).map fun _ => true)

/-! ## Groups and nonterminals -/

/-- A group is read if its body is read to the end. -/
theorem group {delimiter : Delimiter} {body : List Token} (h : Reads p body a []) :
    Reads (Source.group delimiter p) (.group delimiter body :: rest) a rest := by
  intro z
  obtain ⟨z', hrun⟩ := h []
  exact ⟨.group delimiter z'.reverse :: z, group_eq_some.mpr ⟨body, z', rfl, hrun, rfl⟩⟩

/-- A nonterminal reads what its rule reads. -/
theorem rule {nonterminal : Nonterminal} {e : Node}
    (h : Reads (Source.rule grammar nonterminal) u e rest) :
    Reads (grammar nonterminal) u e rest :=
  congr (fun _ => grammar_eq_rule nonterminal _) h

/-- A grammar of a depth that is enough reads what the grammar reads. -/
theorem of_grammarTo {nonterminal : Nonterminal} {e : Node}
    (h : ∀ n, Reads (grammarTo (n + 4) nonterminal) u e rest) :
    Reads (grammar nonterminal) u e rest := by
  intro z
  obtain ⟨z', hrun⟩ := h (3 * (Token.sizeAll u + 1)) z
  exact ⟨z', (grammar_apply_eq nonterminal (Nat.le_add_right _ _)).trans hrun⟩

/-! ## Repetition -/

theorem repeated_nil {step : Parser (Option α)} (h : Reads step u none rest) :
    Reads (repeated step) u [] rest := by
  intro z
  obtain ⟨z', hrun⟩ := h z
  exact ⟨z', repeated_eq_some.mpr ⟨Nat.zero_le _, .stop hrun⟩⟩

/-- A loop reads one more element if that element reads something. -/
theorem repeated_cons {step : Parser (Option α)} {as : List α} (h : Reads step u (some a) v)
    (hlength : v.length < u.length) (hmore : Reads (repeated step) v as rest) :
    Reads (repeated step) u (a :: as) rest := by
  intro z
  obtain ⟨z₁, hrun⟩ := h z
  obtain ⟨z₂, hrest⟩ := hmore z₁
  obtain ⟨hcount, hrounds⟩ := repeated_eq_some.mp hrest
  exact ⟨z₂, repeated_eq_some.mpr ⟨Nat.succ_le_of_lt (Nat.lt_of_le_of_lt hcount hlength),
    .next hrun hrounds⟩⟩

theorem many_nil {question : Peek} (h : question u = false) : Reads (many question p) u [] u :=
  repeated_nil (no h (pure _ _))

/-- A list reads one more element while its question says so. -/
theorem many_cons {question : Peek} {as : List α} (hyes : question u = true) (h : Reads p u a v)
    (hlength : v.length < u.length) (hmore : Reads (many question p) v as rest) :
    Reads (many question p) u (a :: as) rest :=
  repeated_cons (yes hyes (h.map some)) hlength hmore

theorem iterate_stop {step : α → Parser (Option α)} (h : Reads (step a) u none rest) :
    Reads (iterate step a) u a rest :=
  fun z => (h z).imp fun _ hrun => (bind_of_eq_some get_apply _).trans (bind_of_eq_some hrun _)

/-- A result grows by one more step if that step reads something. -/
theorem iterate_next {step : α → Parser (Option α)} {a' a'' : α}
    (h : Reads (step a) u (some a') v) (hlength : v.length < u.length)
    (hmore : Reads (iterate step a') v a'' rest) : Reads (iterate step a) u a'' rest := by
  intro z
  obtain ⟨z₁, hrun⟩ := h z
  obtain ⟨z₂, hrest⟩ := hmore z₁
  obtain ⟨fuel, hfuel⟩ := Nat.exists_eq_add_of_lt hlength
  refine ⟨z₂, (bind_of_eq_some get_apply _).trans ((iterateStep_of_some hrun).trans ?_)⟩
  have hend : iterateStep step (v.length + 1) a' ⟨v, z₁⟩ = some (a'', ⟨rest, z₂⟩) := hrest
  change iterateStep step u.length a' ⟨v, z₁⟩ = some (a'', ⟨rest, z₂⟩)
  rw [hfuel, Nat.add_right_comm]
  exact iterateStep_add hend fuel

end Reads

/-- What replays on all tokens reads what it has written wherever a run may end alike. -/
theorem Replays.again {least : Nat} {Post : α → Follow} {p p' : Parser α} {Pre : Follow}
    (h : ∀ size, Replays .written size least Post p p' Pre) {z out : List Token}
    (hrun : p ⟨u, z⟩ = some (a, ⟨v, out⟩)) :
    ∃ written, out = written.reverse ++ z ∧ least ≤ written.length ∧
      ∀ rest, Post a v rest → Pre u (written ++ rest) ∧ Reads p' (written ++ rest) a rest := by
  obtain ⟨-, written, -, hwritten, -, hleast, -⟩ := h 0 _ _ _ hrun
  refine ⟨written, hwritten, hleast, fun rest hrest => ?_⟩
  obtain ⟨read, again, -, hagain, -, -, hreplay⟩ :=
    h (Token.sizeAll (written ++ rest)) _ _ _ hrun
  -- However many tokens are allowed, the same ones were written.
  obtain rfl : again = written :=
    List.reverse_injective (List.append_cancel_right (hagain.symm.trans hwritten))
  obtain ⟨hstart, hreads⟩ := hreplay rest hrest (Nat.le_refl _)
  exact ⟨hstart, .of_eq hreads⟩

/-! ## Lists -/

/-- A parser reads a value off the tokens wherever they stand. -/
def Stands (p : Parser α) (tokens : List Token) (a : α) : Prop :=
  tokens ≠ [] ∧ ∀ rest, Reads p (tokens ++ rest) a rest

theorem length_lt_append (hne : u ≠ []) (v : List Token) : v.length < (u ++ v).length := by
  have hpos := List.length_pos_iff.mpr hne
  rw [List.length_append]
  omega

/-- What stands one after the other is read one by one. -/
theorem untilEnd_reads {parts : List (List Token)} {as : List α}
    (h : List.Forall₂ (Stands p) parts as) : Reads (untilEnd p) parts.flatten as [] := by
  induction h with
  | nil => exact .many_nil rfl
  | @cons part a parts as hpart _ ih =>
      obtain ⟨hne, hread⟩ := hpart
      have hmore : (!(part ++ parts.flatten).isEmpty) = true := by simp [hne]
      rw [List.flatten_cons]
      exact .many_cons hmore (hread _) (length_lt_append hne _) ih

/-- Elements that a comma follows each. -/
theorem commaList_reads_closed {parts : List (List Token)} {es : List α}
    (h : List.Forall₂ (fun part e => ∀ rest,
      Reads p (part ++ .punct ',' false :: rest) e (.punct ',' false :: rest)) parts es) :
    Reads (commaList p) (parts.flatMap fun part => part ++ [.punct ',' false]) es [] := by
  change Reads (repeated (commaRound p)) _ es []
  induction h with
  | nil => exact .repeated_nil fun z => ⟨z, rfl⟩
  | @cons part e parts es hread _ ih =>
      rw [List.flatMap_cons]
      refine .repeated_cons ?_ (length_lt_append (by simp) _) ih
      rw [List.append_assoc]
      have hmore : ∀ rest, (part ++ Token.punct ',' false :: rest).isEmpty = false := by simp
      exact .no (hmore _) ((hread _).bind fun z => ⟨_, rfl⟩)

/-- Elements that are read where a comma follows or nothing. -/
abbrev ReadElements (p : Parser α) (parts : List (List Token)) (es : List α) : Prop :=
  List.Forall₂ (fun part e => part ≠ [] ∧ ∀ rest, EndsElement rest → Reads p (part ++ rest) e rest)
    parts es

/-- Elements with commas between them. -/
theorem commaList_reads_between {parts : List (List Token)} {es : List α}
    (h : ReadElements p parts es) :
    Reads (commaList p) (Emit.commaSeparated parts) es [] := by
  change Reads (repeated (commaRound p)) _ es []
  induction h with
  | nil => exact .repeated_nil fun z => ⟨z, rfl⟩
  | @cons part e parts es hpart hparts ih =>
      obtain ⟨hne, hread⟩ := hpart
      cases hparts with
      | nil =>
          have hlast : Emit.commaSeparated [part] = part := List.intercalate_singleton
          have hhere := hread [] (.inl rfl)
          rw [List.append_nil] at hhere
          rw [hlast]
          have hmore : part.isEmpty = false := List.isEmpty_eq_false_iff.mpr hne
          exact .repeated_cons (v := []) (.no hmore (hhere.bind fun z => ⟨z, rfl⟩))
            (List.length_pos_iff.mpr hne) (.repeated_nil fun z => ⟨z, rfl⟩)
      | @cons next _ parts _ _ _ =>
          rw [commaSeparated_cons_cons]
          have hmore : ∀ rest, (part ++ Token.punct ',' false :: rest).isEmpty = false := by simp
          refine .repeated_cons (v := Emit.commaSeparated (next :: parts))
            (.no (hmore _) ((hread _ (.inr ⟨_, rfl⟩)).bind fun z => ⟨_, rfl⟩)) ?_ ih
          rw [List.length_append, List.length_cons]
          omega

end ActionUnits.Source
