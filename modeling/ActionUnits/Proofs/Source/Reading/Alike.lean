import ActionUnits.Proofs.Source.Reading.Extent
import ActionUnits.Proofs.Source.Replay.Loops

/-! # Parsers that read alike

Two parsers read alike if they give the same answers as long as few enough tokens
are left, and if what they read has a given extent. Both are known of a parser
from its parts, so instances follow the way it is put together. A rule of the
grammar refers to other rules after it has read a token, or to rules that do; so
its answers depend on those for shorter inputs only.
-/

namespace ActionUnits.Source

/-- Whether a token has been read since a rule was entered. -/
inductive Place where
  | start
  | inside

/-- What bounds the number of tokens that are left, if there were at most `size` at the start. -/
def Place.bound : Place → Nat → Nat
  | .start, size => size + 1
  | .inside, size => size

/-- Two parsers that give the same answers on short inputs, and what they read there. -/
class Alike {α : Type} (size : Nat) (place : Place) (p p' : Parser α) (extent : Extent) : Prop where
  agree : ∀ {c : Cursor}, Token.sizeAll c.rest < place.bound size → p c = p' c
  reads : ∀ {c d : Cursor} {a : α}, Token.sizeAll c.rest < place.bound size → p c = some (a, d) →
    ∃ read, c.rest = read ++ d.rest ∧ extent.Holds read

namespace Alike

variable {α β γ : Type} {size : Nat} {place next : Place} {extent first second : Extent}
  {p p' q q' : Parser α} {f f' : α → Parser β}

/-! ## Sequencing -/

/-- One reading after the other, alike if both are and if what they read fits together. -/
theorem andThen (hp : Alike size place p p' first)
    (hf : ∀ a, Alike size next (f a) (f' a) second)
    (hbound : ∀ {read rest}, first.Holds read →
      Token.sizeAll (read ++ rest) < place.bound size → Token.sizeAll rest < next.bound size)
    (hextent : ∀ {read read'}, first.Holds read → second.Holds read' →
      extent.Holds (read ++ read')) :
    Alike size place (p >>= f) (p' >>= f') extent where
  agree {c} hc := by
    have hagree := hp.agree hc
    cases hrun : p c with
    | none =>
        change (p c).bind _ = (p' c).bind _
        rw [← hagree, hrun]
        rfl
    | some answer =>
        obtain ⟨a, d⟩ := answer
        obtain ⟨read, hread, hholds⟩ := hp.reads hc hrun
        rw [bind_of_eq_some hrun, bind_of_eq_some (hagree ▸ hrun)]
        rw [hread] at hc
        exact (hf a).agree (hbound hholds hc)
  reads {c d b} hc hrun := by
    obtain ⟨a, e, hrunp, hrunf⟩ := bind_eq_some.mp hrun
    obtain ⟨read, hread, hholds⟩ := hp.reads hc hrunp
    rw [hread] at hc
    obtain ⟨read', hread', hholds'⟩ := (hf a).reads (hbound hholds hc) hrunf
    exact ⟨read ++ read', by rw [hread, hread', List.append_assoc], hextent hholds hholds'⟩

/-- What is left of a text is no larger than the text. -/
theorem bound_stays {read rest : List Token}
    (h : Token.sizeAll (read ++ rest) < place.bound size) :
    Token.sizeAll rest < place.bound size := by
  rw [Token.sizeAll_append] at h
  omega

/-- After a token fewer are left than at the start. -/
theorem bound_inside {read rest : List Token} (hread : read ≠ [])
    (h : Token.sizeAll (read ++ rest) < place.bound size) :
    Token.sizeAll rest < Place.inside.bound size := by
  have hlength := Token.length_le_sizeAll read
  have hpos := List.length_pos_iff.mpr hread
  rw [Token.sizeAll_append] at h
  cases place with
  | start =>
      simp only [Place.bound] at h ⊢
      omega
  | inside =>
      simp only [Place.bound] at h ⊢
      omega

/-- A reading may be asked for less about what it reads. -/
theorem weaken (h : Alike size place p p' first)
    (hextent : ∀ {read}, first.Holds read → extent.Holds read) :
    Alike size place p p' extent where
  agree := h.agree
  reads hc hrun := by
    obtain ⟨read, hread, hholds⟩ := h.reads hc hrun
    exact ⟨read, hread, hextent hholds⟩

instance (priority := 50) loose_of_firm [h : Alike size place p p' .firm] :
    Alike size place p p' .loose :=
  h.weaken fun hholds => hholds.1

instance (priority := 50) lead_of_loose [h : Alike size place p p' .loose] :
    Alike size place p p' .lead :=
  h.weaken fun hholds => hholds.1

/-- What follows a token is inside. -/
theorem firmThen (hp : Alike size place p p' .firm)
    (hf : ∀ a, Alike size .inside (f a) (f' a) .loose) :
    Alike size place (p >>= f) (p' >>= f') .firm :=
  hp.andThen hf (fun hholds => bound_inside hholds.2) fun hholds hholds' =>
    ⟨hholds.1.append hholds', List.append_ne_nil_of_left_ne_nil hholds.2 _⟩

/-- Something must follow an attribute. -/
theorem thenFirm (hp : Alike size place p p' .lead)
    (hf : ∀ a, Alike size place (f a) (f' a) .firm) :
    Alike size place (p >>= f) (p' >>= f') .firm :=
  hp.andThen hf (fun _ => bound_stays) fun hholds hholds' =>
    ⟨hholds.append_finished hholds'.1 hholds'.2, List.append_ne_nil_of_right_ne_nil _ hholds'.2⟩

theorem thenLoose (hp : Alike size place p p' .loose)
    (hf : ∀ a, Alike size place (f a) (f' a) .loose) :
    Alike size place (p >>= f) (p' >>= f') .loose :=
  hp.andThen hf (fun _ => bound_stays) Finished.append

theorem thenLead (hp : Alike size place p p' .lead)
    (hf : ∀ a, Alike size place (f a) (f' a) .lead) :
    Alike size place (p >>= f) (p' >>= f') .lead :=
  hp.andThen hf (fun _ => bound_stays) Paused.append

instance bind_firm_loose [hp : Alike size place p p' .firm]
    [hf : ∀ a, Alike size .inside (f a) (f' a) .loose] :
    Alike size place (p >>= f) (p' >>= f') .firm :=
  hp.firmThen hf

instance bind_lead_firm [hp : Alike size place p p' .lead]
    [hf : ∀ a, Alike size place (f a) (f' a) .firm] :
    Alike size place (p >>= f) (p' >>= f') .firm :=
  hp.thenFirm hf

instance bind_loose [hp : Alike size place p p' .loose]
    [hf : ∀ a, Alike size place (f a) (f' a) .loose] :
    Alike size place (p >>= f) (p' >>= f') .loose :=
  hp.thenLoose hf

instance bind_lead [hp : Alike size place p p' .lead]
    [hf : ∀ a, Alike size place (f a) (f' a) .lead] :
    Alike size place (p >>= f) (p' >>= f') .lead :=
  hp.thenLead hf

/-! A result that is taken apart at once is taken apart before the search goes on. -/

section Pair

variable {p p' : Parser (α × γ)} {f f' : α × γ → Parser β}

instance (priority := 2000) bind_pair_firm_loose [hp : Alike size place p p' .firm]
    [hf : ∀ a b, Alike size .inside (f (a, b)) (f' (a, b)) .loose] :
    Alike size place (p >>= f) (p' >>= f') .firm :=
  hp.firmThen fun (a, b) => hf a b

instance (priority := 2000) bind_pair_lead_firm [hp : Alike size place p p' .lead]
    [hf : ∀ a b, Alike size place (f (a, b)) (f' (a, b)) .firm] :
    Alike size place (p >>= f) (p' >>= f') .firm :=
  hp.thenFirm fun (a, b) => hf a b

instance (priority := 2000) bind_pair_loose [hp : Alike size place p p' .loose]
    [hf : ∀ a b, Alike size place (f (a, b)) (f' (a, b)) .loose] :
    Alike size place (p >>= f) (p' >>= f') .loose :=
  hp.thenLoose fun (a, b) => hf a b

end Pair

section Option

variable {p p' : Parser (Option α)} {f f' : Option α → Parser β}

theorem forall_option {place : Place} (hsome : ∀ a, Alike size place (f (some a)) (f' (some a)) extent)
    (hnone : Alike size place (f none) (f' none) extent) :
    ∀ a, Alike size place (f a) (f' a) extent
  | some a => hsome a
  | none => hnone

instance (priority := 2000) bind_option_firm_loose [hp : Alike size place p p' .firm]
    [hsome : ∀ a, Alike size .inside (f (some a)) (f' (some a)) .loose]
    [hnone : Alike size .inside (f none) (f' none) .loose] :
    Alike size place (p >>= f) (p' >>= f') .firm :=
  hp.firmThen (forall_option hsome hnone)

instance (priority := 2000) bind_option_loose [hp : Alike size place p p' .loose]
    [hsome : ∀ a, Alike size place (f (some a)) (f' (some a)) .loose]
    [hnone : Alike size place (f none) (f' none) .loose] :
    Alike size place (p >>= f) (p' >>= f') .loose :=
  hp.thenLoose (forall_option hsome hnone)

end Option

/-! A parser that is put together from others is taken apart as well. -/

instance (priority := 3000) bind_bind {r r' : β → Parser γ}
    [h : Alike size place (p >>= fun a => f a >>= r) (p' >>= fun a => f' a >>= r') extent] :
    Alike size place (p >>= f >>= r) (p' >>= f' >>= r') extent := by
  rwa [bind_assoc, bind_assoc]

instance (priority := 3000) pure_bind (a : α) [h : Alike size place (f a) (f' a) extent] :
    Alike size place (pure a >>= f) (pure a >>= f') extent :=
  h

/-! ## Choices -/

theorem both {condition : Prop} [Decidable condition] (hp : Alike size place p p' extent)
    (hq : Alike size place q q' extent) :
    Alike size place (if condition then p else q) (if condition then p' else q') extent := by
  split
  · exact hp
  · exact hq

instance choice {condition : Prop} [Decidable condition] [hp : Alike size place p p' extent]
    [hq : Alike size place q q' extent] :
    Alike size place (if condition then p else q) (if condition then p' else q') extent :=
  hp.both hq

instance (priority := 3000) choice_bind {condition : Prop} [Decidable condition]
    [hp : Alike size place (p >>= f) (p' >>= f') extent]
    [hq : Alike size place (q >>= f) (q' >>= f') extent] :
    Alike size place ((if condition then p else q) >>= f) ((if condition then p' else q') >>= f')
      extent := by
  split
  · exact hp
  · exact hq

instance (priority := 2000) choice_true [Decidable (true = true)]
    [hp : Alike size place p p' extent] :
    Alike size place (if true = true then p else q) (if true = true then p' else q') extent := by
  rwa [if_pos rfl, if_pos rfl]

instance (priority := 2000) choice_false [Decidable (false = true)]
    [hq : Alike size place q q' extent] :
    Alike size place (if false = true then p else q) (if false = true then p' else q') extent := by
  rwa [if_neg Bool.false_ne_true, if_neg Bool.false_ne_true]

end Alike

section Parsers

open Alike

variable {α β : Type} {size : Nat} {place : Place} {extent : Extent}
  {p p' q q' : Parser α}

/-! ## Parsers that read nothing -/

/-- A parser that leaves the tokens as they are. -/
theorem Alike.still (h : ∀ {c d a}, p c = some (a, d) → d.rest = c.rest) :
    Alike size place p p .loose where
  agree _ := rfl
  reads _ hrun := ⟨[], by rw [h hrun, List.nil_append], .nil⟩

instance pure_alike (a : α) : Alike size place (pure a) (pure a) .loose :=
  still fun hrun => by rw [(pure_eq_some.mp hrun).2]

/-- Parsers that never have an answer. -/
theorem Alike.never (h : ∀ c, p c = none) (h' : ∀ c, p' c = none) :
    Alike size place p p' extent where
  agree _ := by rw [h, h']
  reads _ hrun := by
    rw [h] at hrun
    cases hrun

instance failure_alike : Alike size place (failure : Parser α) failure .firm :=
  .never (fun _ => rfl) fun _ => rfl

instance get_alike : Alike size place (get : Parser Cursor) get .loose :=
  still fun hrun => by cases hrun; rfl

instance peek_alike (question : Peek) : Alike size place (peek question) (peek question) .loose :=
  still fun hrun => by cases hrun; rfl

/-- A question about the next tokens decides between two parsers. -/
theorem Alike.ask {question : Peek} (hp : Alike size place p p' .firm)
    (hq : Alike size place q q' .firm) :
    Alike size place (peek question >>= fun b => if b = true then p else q)
      (peek question >>= fun b => if b = true then p' else q') .firm :=
  thenFirm inferInstance fun _ => hp.both hq

instance atEnd_alike : Alike size place atEnd atEnd .loose :=
  peek_alike _

instance require_alike (condition : Bool) :
    Alike size place (require condition) (require condition) .loose :=
  still fun hrun => by rw [(require_eq_some.mp hrun).2]

instance write_alike (tokens : List Token) : Alike size place (write tokens) (write tokens) .loose :=
  still fun hrun => by cases hrun; rfl

instance keepVerbatim_alike (start : Cursor) :
    Alike size place (keepVerbatim start) (keepVerbatim start) .loose :=
  still fun hrun => by cases hrun; rfl

/-! ## Parsers of tokens -/

/-- A parser that reads tokens of its own. -/
theorem Alike.reading (h : ∀ {c d a}, p c = some (a, d) → ∃ read, c.rest = read ++ d.rest ∧ read ≠ [] ∧
    ∀ joint, .punct '#' joint ∉ read) : Alike size place p p .firm where
  agree _ := rfl
  reads _ hrun := by
    obtain ⟨read, hread, hne, hmarks⟩ := h hrun
    exact ⟨read, hread, .of_notMem hmarks, hne⟩

instance anyWord_alike : Alike size place anyWord anyWord .firm :=
  reading fun {c d name} hrun => ⟨[.ident name], (anyWord_eq_some.mp hrun).1, by simp, by simp⟩

instance ident_alike : Alike size place ident ident .firm := by
  unfold ident
  infer_instance

instance word_alike (text : String) : Alike size place (word text) (word text) .firm := by
  unfold word
  infer_instance

instance lifetime_alike : Alike size place lifetime lifetime .firm :=
  reading fun {c d name} hrun =>
    ⟨[.punct '\'' true, .ident name], (lifetime_eq_some.mp hrun).1, by simp, by simp⟩

instance literal_alike : Alike size place literal literal .firm :=
  reading fun {c d node} hrun => by
    obtain ⟨text, -, hrest, -⟩ | ⟨name, -, -, hrest, -⟩ | ⟨text, joint, -, -, hrest, -⟩ :=
      literal_eq_some.mp hrun
    · exact ⟨[.literal text], hrest, by simp, by simp⟩
    · exact ⟨[.ident name], hrest, by simp, by simp⟩
    · exact ⟨[.punct '-' joint, .literal text], hrest, by simp, by simp⟩

instance anyGroup_alike : Alike size place anyGroup anyGroup .firm :=
  reading fun {c d token} hrun =>
    ⟨[.group token.1 token.2], (anyGroup_eq_some.mp hrun).1, by simp, by simp⟩

/-- An operator that opens no attribute. -/
class Plain (text : String) : Prop where
  notMem : '#' ∉ text.toList

instance : Plain "!" := ⟨by decide⟩
instance : Plain "&" := ⟨by decide⟩
instance : Plain "*" := ⟨by decide⟩
instance : Plain "+" := ⟨by decide⟩
instance : Plain "," := ⟨by decide⟩
instance : Plain "-" := ⟨by decide⟩
instance : Plain "->" := ⟨by decide⟩
instance : Plain "." := ⟨by decide⟩
instance : Plain ".." := ⟨by decide⟩
instance : Plain "..." := ⟨by decide⟩
instance : Plain "..=" := ⟨by decide⟩
instance : Plain ":" := ⟨by decide⟩
instance : Plain "::" := ⟨by decide⟩
instance : Plain ";" := ⟨by decide⟩
instance : Plain "<" := ⟨by decide⟩
instance : Plain "=" := ⟨by decide⟩
instance : Plain "=>" := ⟨by decide⟩
instance : Plain ">" := ⟨by decide⟩
instance : Plain "?" := ⟨by decide⟩
instance : Plain "@" := ⟨by decide⟩
instance : Plain "|" := ⟨by decide⟩

/-- An operator with no `#` in it reads some tokens, and none of them is a `#`. -/
theorem take_of_nextIsOp {text : List Char} {tokens : List Token}
    (h : nextIsOp text tokens = true) (hmark : '#' ∉ text) :
    tokens.take text.length ≠ [] ∧ ∀ joint, .punct '#' joint ∉ tokens.take text.length := by
  fun_induction nextIsOp text tokens with
  | case1 c d joint rest =>
      obtain rfl := eq_of_beq h
      have hc : '#' ≠ c := by simpa using hmark
      simp [hc]
  | case2 c cs d rest hcs ih =>
      rw [Bool.and_eq_true] at h
      obtain rfl := eq_of_beq h.1
      obtain ⟨hc, hmore⟩ := List.ne_and_not_mem_of_not_mem_cons hmark
      obtain ⟨-, hrest⟩ := ih h.2 hmore
      simp [hc, hrest]
  | case3 => cases h

theorem exists_of_isOp {text : String} [hplain : Plain text] {tokens : List Token}
    (h : isOp text tokens = true) :
    ∃ read, tokens = read ++ tokens.drop text.length ∧ read ≠ [] ∧
      ∀ joint, .punct '#' joint ∉ read := by
  have hread := take_of_nextIsOp h hplain.notMem
  rw [String.length_toList] at hread
  exact ⟨_, (List.take_append_drop _ _).symm, hread⟩

instance op_alike (text : String) [Plain text] : Alike size place (op text) (op text) .firm :=
  .reading fun {c d _} hrun => by
    obtain ⟨hop, rfl⟩ := op_eq_some.mp hrun
    exact exists_of_isOp hop

/-! ## Optional tokens -/

/-- A parser that tells whether it has read a token. -/
class Offers (q : Parser Bool) : Prop where
  bind_eq : ∃ (question : Peek) (token : Parser Unit),
    (∀ size place, Alike size place token token .firm) ∧
    ∀ {β : Type} (f : Bool → Parser β), (q >>= f) = peek question >>= fun b =>
      if b = true then token >>= fun _ => f true else f false

instance op?_offers (text : String) [Plain text] : Offers (op? text) where
  bind_eq := ⟨isOp text, op text, fun _ _ => inferInstance, op?_bind text⟩

instance word?_offers (text : String) : Offers (word? text) where
  bind_eq := ⟨isWord text, word text, fun _ _ => inferInstance, word?_bind text⟩

section Offers

variable {q : Parser Bool} {f f' : Bool → Parser β}

/-- An optional operator, and then what depends on it. -/
theorem Alike.offered [hq : Offers q] (htrue : Alike size .inside (f true) (f' true) .loose)
    (hfalse : Alike size place (f false) (f' false) .firm) :
    Alike size place (q >>= f) (q >>= f') .firm := by
  obtain ⟨question, token, htoken, heq⟩ := hq.bind_eq
  rw [heq, heq]
  infer_instance

instance (priority := 2000) Alike.bind_offer_firm [Offers q]
    [htrue : Alike size .inside (f true) (f' true) .loose]
    [hfalse : Alike size place (f false) (f' false) .firm] :
    Alike size place (q >>= f) (q >>= f') .firm :=
  offered htrue hfalse

instance (priority := 2000) Alike.bind_offer_loose [hq : Offers q]
    [Alike size .inside (f true) (f' true) .loose] [Alike size place (f false) (f' false) .loose] :
    Alike size place (q >>= f) (q >>= f') .loose := by
  obtain ⟨question, token, htoken, heq⟩ := hq.bind_eq
  rw [heq, heq]
  infer_instance

instance Alike.offer [Offers q] : Alike size place q q .loose := by
  rw [← bind_pure q]
  infer_instance

end Offers

instance when?_alike (question : Peek) [Alike size place p p' .loose] :
    Alike size place (when? question p) (when? question p') .loose := by
  unfold when?
  infer_instance

instance lifetime?_alike : Alike size place lifetime? lifetime? .loose := by
  unfold lifetime?
  infer_instance

/-! ## Groups -/

/-- The body of a group is smaller than the text it stands in. -/
theorem Alike.bound_body {c d : Cursor} {delimiter : Delimiter} {body : List Token}
    (hc : Token.sizeAll c.rest < place.bound size)
    (hrest : c.rest = .group delimiter body :: d.rest) :
    Token.sizeAll body < Place.inside.bound size := by
  rw [hrest, Token.sizeAll, Token.size] at hc
  cases place <;> simp only [Place.bound] at hc ⊢ <;> omega

instance group_alike (delimiter : Delimiter) [hp : Alike size .inside p p' .lead] :
    Alike size place (group delimiter p) (group delimiter p') .firm where
  agree {c} hc := by
    refine Option.ext fun (a, d) => ?_
    have hagree : ∀ {body}, c.rest = .group delimiter body :: d.rest →
        p ⟨body, []⟩ = p' ⟨body, []⟩ := fun {body} hrest =>
      @hp.agree ⟨body, []⟩ (bound_body hc hrest)
    rw [group_eq_some, group_eq_some]
    constructor
    · rintro ⟨body, written, hrest, hrun, hwritten⟩
      exact ⟨body, written, hrest, hagree hrest ▸ hrun, hwritten⟩
    · rintro ⟨body, written, hrest, hrun, hwritten⟩
      exact ⟨body, written, hrest, hagree hrest ▸ hrun, hwritten⟩
  reads {c d a} hc hrun := by
    obtain ⟨body, written, hrest, -, -⟩ := group_eq_some.mp hrun
    exact ⟨[.group delimiter body], hrest, .single nofun, List.cons_ne_nil _ _⟩

instance capture_alike [hp : Alike size place p p' extent] :
    Alike size place (capture p) (capture p') extent where
  agree {c} hc := by
    have hagree := @hp.agree ⟨c.rest, []⟩ hc
    refine Option.ext fun ((a, tokens), d) => ?_
    rw [capture_eq_some, capture_eq_some, hagree]
  reads {c d a} hc hrun := by
    obtain ⟨written, hinside, -, -⟩ := capture_eq_some.mp hrun
    exact @hp.reads ⟨c.rest, []⟩ ⟨d.rest, written⟩ a.1 hc hinside

/-! ## Repetitions -/

/-- A result that is wrapped. -/
theorem Alike.map (h : Alike size place p p' extent) (f : α → β) :
    Alike size place (p >>= fun a => pure (f a)) (p' >>= fun a => pure (f a)) extent where
  agree hc := bind_apply_congr (h.agree hc) _
  reads hc hrun := by
    obtain ⟨a, e, hp, hpure⟩ := bind_eq_some.mp hrun
    obtain ⟨-, rfl⟩ := pure_eq_some.mp hpure
    exact h.reads hc hp

section Repeated

variable {step step' : Parser (Option α)}

/-- The rounds of a loop are alike if each of them is, by induction on the fuel. -/
theorem repeatStep_alike (hstep : Alike size place step step' extent)
    (hpure : Alike size place (pure [] : Parser (List α)) (pure []) extent)
    (happend : ∀ {read read'}, extent.Holds read → extent.Holds read' →
      extent.Holds (read ++ read')) (fuel : Nat) :
    Alike size place (repeatStep step fuel) (repeatStep step' fuel) extent := by
  induction fuel with
  | zero => exact .never (fun _ => rfl) fun _ => rfl
  | succ fuel ih =>
      unfold repeatStep
      exact hstep.andThen (forall_option (fun a => ih.map (a :: ·)) hpure) (fun _ => bound_stays)
        happend

instance repeated_alike [hstep : Alike size place step step' .loose] :
    Alike size place (repeated step) (repeated step') .loose :=
  thenLoose inferInstance fun _ => repeatStep_alike hstep inferInstance Finished.append _

instance repeated_alike_lead [hstep : Alike size place step step' .lead] :
    Alike size place (repeated step) (repeated step') .lead :=
  thenLead inferInstance fun _ => repeatStep_alike hstep inferInstance Paused.append _

end Repeated

instance many_alike (more : Peek) [Alike size place p p' .loose] :
    Alike size place (many more p) (many more p') .loose := by
  unfold many
  infer_instance

instance many_alike_lead (more : Peek) [Alike size place p p' .lead] :
    Alike size place (many more p) (many more p') .lead := by
  unfold many
  infer_instance

instance untilEnd_alike [Alike size place p p' .loose] :
    Alike size place (untilEnd p) (untilEnd p') .loose := by
  unfold untilEnd
  infer_instance

instance separated_alike (separator : String) [Plain separator] (stop : Peek)
    [Alike size place p p' .loose] :
    Alike size place (separated separator stop p) (separated separator stop p') .loose := by
  unfold separated
  infer_instance

instance commaList_alike [Alike size place p p' .loose] :
    Alike size place (commaList p) (commaList p') .loose := by
  unfold commaList
  infer_instance

instance plusList_alike (stop : Peek) [hp : Alike size place p p' .loose] :
    Alike size place (plusList stop p) (plusList stop p') .loose := by
  have hstep : ∀ more, Alike size place (plusStep stop p more) (plusStep stop p' more) .loose := by
    unfold plusStep
    infer_instance
  have hgo : ∀ fuel more, Alike size place (plusList.go (plusStep stop p) fuel more)
      (plusList.go (plusStep stop p') fuel more) .loose := by
    intro fuel
    induction fuel with
    | zero => exact fun _ => .never (fun _ => rfl) fun _ => rfl
    | succ fuel ih =>
        exact fun more => (hstep more).thenLoose
          (forall_option (fun (a, more) => (ih more).map (a :: ·)) inferInstance)
  exact thenLoose inferInstance fun _ => hgo _ _

instance iterate_alike {step step' : α → Parser (Option α)}
    [hstep : ∀ a, Alike size place (step a) (step' a) .loose] (start : α) :
    Alike size place (iterate step start) (iterate step' start) .loose := by
  have hgo : ∀ fuel a, Alike size place (iterateStep step fuel a) (iterateStep step' fuel a)
      .loose := by
    intro fuel
    induction fuel with
    | zero => exact fun _ => .never (fun _ => rfl) fun _ => rfl
    | succ fuel ih => exact fun a => (hstep a).thenLoose (forall_option ih inferInstance)
  exact thenLoose inferInstance fun _ => hgo _ _

end Parsers

/-- How far the rule of a nonterminal gets. -/
@[reducible] def Nonterminal.extent : Nonterminal → Extent
  | .statements => .loose
  | _ => .firm

end ActionUnits.Source
