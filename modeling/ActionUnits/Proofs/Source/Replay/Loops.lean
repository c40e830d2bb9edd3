import ActionUnits.Proofs.Source.Replay.Tokens

/-! # Replaying options and repetitions

An optional part is a choice by a question. A repetition has an invariant, a
follow relation that holds before each round; the rounds of the second reading
are those of the first one, and there is fuel for them as each reads a token.
-/

namespace ActionUnits.Source

variable {α β : Type} {m : Mode} {size least : Nat}

/-! ## Optional parts -/

/-- What follows an optional operator depends on whether it is there. -/
theorem op?_bind (text : String) (f : Bool → Parser β) :
    (op? text >>= f) = (peek (isOp text) >>= fun b =>
      if b = true then op text >>= fun _ => f true else f false) := by
  unfold op?
  rw [bind_assoc]
  congr 1
  funext b
  cases b <;> simp

/-- What follows an optional word depends on whether it is there. -/
theorem word?_bind (text : String) (f : Bool → Parser β) :
    (word? text >>= f) = (peek (isWord text) >>= fun b =>
      if b = true then word text >>= fun _ => f true else f false) := by
  unfold word?
  rw [bind_assoc]
  congr 1
  funext b
  cases b <;> simp

/-- What follows an optional part depends on whether it is announced. -/
theorem when?_bind (question : Peek) (p : Parser α) (f : Option α → Parser β) :
    (when? question p >>= f) = (peek question >>= fun b =>
      if b = true then p >>= fun a => f (some a) else f none) := by
  unfold when?
  rw [bind_assoc]
  congr 1
  funext b
  cases b <;> simp

/-- What follows an optional lifetime depends on whether it is there. -/
theorem lifetime?_bind (f : Option Ident → Parser β) :
    (lifetime? >>= f) = (peek isLifetime >>= fun b =>
      if b = true then lifetime >>= fun name => f (some name) else f none) := by
  unfold lifetime?
  rw [bind_assoc]
  congr 1
  funext b
  cases b <;> simp

namespace Replays

variable {Post : β → Follow} {Pre : Follow}

/-- Two continuations are told apart by an operator, in both readings. -/
theorem choiceOp {text : String} {f f' : Bool → Parser β}
    (hyes : Replays m size least Post (op text >>= fun _ => f true) (op text >>= fun _ => f' true)
      fun u u' => isOp text u = true → Pre u u')
    (hno : Replays m size least Post (f false) (f' false) fun u u' => isOp text u = false → Pre u u')
    (hanswer : ∀ u u', Pre u u' → isOp text u' = isOp text u) :
    Replays m size least Post (Source.op? text >>= f) (Source.op? text >>= f') Pre := by
  rw [op?_bind, op?_bind]
  exact choice hyes hno hanswer

/-- Two continuations are told apart by a word, in both readings. -/
theorem choiceWord {text : String} {f f' : Bool → Parser β}
    (hyes : Replays m size least Post (word text >>= fun _ => f true)
      (word text >>= fun _ => f' true) fun u u' => isWord text u = true → Pre u u')
    (hno : Replays m size least Post (f false) (f' false)
      fun u u' => isWord text u = false → Pre u u')
    (hanswer : ∀ u u', Pre u u' → isWord text u' = isWord text u) :
    Replays m size least Post (Source.word? text >>= f) (Source.word? text >>= f') Pre := by
  rw [word?_bind, word?_bind]
  exact choice hyes hno hanswer

/-- Two continuations are told apart by a question, in both readings. -/
theorem choiceWhen {question : Peek} {p p' : Parser α} {f f' : Option α → Parser β}
    (hyes : Replays m size least Post (p >>= fun a => f (some a)) (p' >>= fun a => f' (some a))
      fun u u' => question u = true → Pre u u')
    (hno : Replays m size least Post (f none) (f' none) fun u u' => question u = false → Pre u u')
    (hanswer : ∀ u u', Pre u u' → question u' = question u) :
    Replays m size least Post (Source.when? question p >>= f) (Source.when? question p' >>= f')
      Pre := by
  rw [when?_bind, when?_bind]
  exact choice hyes hno hanswer

theorem op? {text : String} [hq : Stable (isOp text)] {f f' : Bool → Parser β}
    (hlead : ∀ u u', Pre u u' → Lead u u')
    (hyes : Replays m size least Post (op text >>= fun _ => f true) (op text >>= fun _ => f' true)
      Pre)
    (hno : Replays m size least Post (f false) (f' false) Pre) :
    Replays m size least Post (Source.op? text >>= f) (Source.op? text >>= f') Pre :=
  choiceOp (hyes.before fun _ _ h _ => h) (hno.before fun _ _ h _ => h)
    fun u u' h => (hq.eq_of_lead (hlead u u' h)).symm

theorem word? {text : String} {f f' : Bool → Parser β} (hlead : ∀ u u', Pre u u' → Lead u u')
    (hyes : Replays m size least Post (word text >>= fun _ => f true)
      (word text >>= fun _ => f' true) Pre)
    (hno : Replays m size least Post (f false) (f' false) Pre) :
    Replays m size least Post (Source.word? text >>= f) (Source.word? text >>= f') Pre :=
  choiceWord (hyes.before fun _ _ h _ => h) (hno.before fun _ _ h _ => h)
    fun u u' h => (Stable.eq_of_lead (hlead u u' h)).symm

theorem when? {question : Peek} [hq : Stable question] {p p' : Parser α}
    {f f' : Option α → Parser β} (hlead : ∀ u u', Pre u u' → Lead u u')
    (hyes : Replays m size least Post (p >>= fun a => f (some a)) (p' >>= fun a => f' (some a)) Pre)
    (hno : Replays m size least Post (f none) (f' none) Pre) :
    Replays m size least Post (Source.when? question p >>= f) (Source.when? question p' >>= f')
      Pre :=
  choiceWhen (hyes.before fun _ _ h _ => h) (hno.before fun _ _ h _ => h)
    fun u u' h => (hq.eq_of_lead (hlead u u' h)).symm

theorem lifetime? {f f' : Option Ident → Parser β} (hlead : ∀ u u', Pre u u' → Lead u u')
    (hyes : ∀ name, Replays m size least Post (f (some name)) (f' (some name)) Any)
    (hno : Replays m size least Post (f none) (f' none) Pre)
    (hpre : ∀ u u', Lead u u' → isLifetime u = true → Pre u u') :
    Replays m size least Post (Source.lifetime? >>= f) (Source.lifetime? >>= f') Pre := by
  rw [lifetime?_bind, lifetime?_bind]
  refine choice ?_ (hno.before fun _ _ h _ => h)
    fun u u' h => (Stable.eq_of_lead (hlead u u' h)).symm
  exact (lifetime_closed.seq Any hyes).before hpre

end Replays

/-- An optional operator is read the same again. -/
theorem op?_closed (text : String) [Stable (isOp text)] (htext : isPlainOp text = true := by decide) :
    Replays m size 0 (fun _ => Lead) (op? text) (op? text) Lead :=
  .ite (fun _ _ h => h) ((op_closed text htext).forget.result fun _ _ _ _ => trivial) (.pure false)

/-- An optional word is read the same again. -/
theorem word?_closed (text : String) :
    Replays m size 0 (fun _ => Lead) (word? text) (word? text) Lead :=
  .ite (fun _ _ h => h) ((word_closed text).forget.result fun _ _ _ _ => trivial) (.pure false)

/-! ## What is kept unread -/

/-- What is kept as it is are the tokens that were read. -/
theorem keepVerbatim_apply {start e : Cursor} {read : List Token}
    (h : start.rest = read ++ e.rest) :
    keepVerbatim start e = some (.verbatim read, ⟨e.rest, read.reverse ++ start.written⟩) := by
  have htake : start.rest.take (start.rest.length - e.rest.length) = read := by
    rw [h, List.length_append, Nat.add_sub_cancel]
    exact List.take_left
  unfold keepVerbatim
  rw [bind_of_eq_some get_apply, htake]
  rfl

/-- A construct of which some forms are given up: their tokens are written as they were read. -/
theorem Replays.keepingEach {p p' : Parser α} {f : α → Cursor → Parser β} {Post : β → Follow}
    {Mid : α → Follow} {Pre : Follow} (isUnread : α → Bool)
    (hread : ∀ a, isUnread a = false →
      ∃ b, (∀ start, f a start = Pure.pure b) ∧ ∀ r r', Post b r r' → Mid a r r')
    (hunread : ∀ a, isUnread a = true → ∃ wrap : Node → β,
      (∀ start, f a start = keepVerbatim start >>= fun node => Pure.pure (wrap node)) ∧
        ∀ node r r', Post (wrap node) r r' → Mid a r r')
    (hw : m = .written →
      Replays .written size least (fun a r r' => isUnread a = false ∧ Mid a r r') p p' Pre)
    (hv : Replays .verbatim size least Mid p p' Pre) :
    Replays m size least Post (get >>= fun start => p >>= fun a => f a start)
      (get >>= fun start => p' >>= fun a => f a start) Pre := by
  intro c b d hrun
  rw [bind_of_eq_some get_apply] at hrun
  obtain ⟨a, e, hfirst, hfinish⟩ := bind_eq_some.mp hrun
  cases hkeep : isUnread a with
  | false =>
      obtain ⟨b', hb, hpost⟩ := hread a hkeep
      rw [hb] at hfinish
      obtain ⟨rfl, rfl⟩ := pure_eq_some.mp hfinish
      -- A form that is read may be replayed in either mode.
      have hboth : Replays m size least (fun a r r' => isUnread a = false ∧ Mid a r r') p p' Pre := by
        cases m with
        | written => exact hw rfl
        | verbatim => exact hv.after fun _ _ _ h => h.2
      obtain ⟨read, written, hr, hwr, hlr, hlw, hreplay⟩ := hboth c a e hfirst
      refine ⟨read, written, hr, hwr, hlr, hlw, fun rest hrest hbound => ?_⟩
      obtain ⟨hstart, hagain⟩ := hreplay rest ⟨hkeep, hpost _ _ hrest⟩ hbound
      refine ⟨hstart, fun z => ?_⟩
      rw [bind_of_eq_some get_apply, bind_of_eq_some (hagain z), hb]
      rfl
  | true =>
      obtain ⟨wrap, hb, hpost⟩ := hunread a hkeep
      -- A form that is given up has its own tokens written, so it is replayed as they stand.
      obtain ⟨read, written, hr, -, hlr, -, hreplay⟩ := hv c a e hfirst
      rw [hb, bind_of_eq_some (keepVerbatim_apply hr)] at hfinish
      obtain ⟨rfl, rfl⟩ := pure_eq_some.mp hfinish
      refine ⟨read, read, hr, rfl, hlr, hlr, fun rest hrest hbound => ?_⟩
      rw [Mode.pick_self] at hbound ⊢
      simp only [Mode.pick_verbatim] at hreplay
      obtain ⟨hstart, hagain⟩ := hreplay rest (hpost _ _ _ hrest) hbound
      refine ⟨hstart, fun z => ?_⟩
      rw [bind_of_eq_some get_apply, bind_of_eq_some (hagain z), hb]
      exact bind_of_eq_some (keepVerbatim_apply rfl) _

/-- A construct of which some forms are given up, whatever it is. -/
theorem Replays.keeping {p p' : Parser α} {f : α → Cursor → Parser β} {Post Pre : Follow}
    (isUnread : α → Bool) (hread : ∀ a, isUnread a = false → ∃ b, ∀ start, f a start = Pure.pure b)
    (hunread : ∀ a, isUnread a = true → ∃ wrap : Node → β, ∀ start,
      f a start = keepVerbatim start >>= fun node => Pure.pure (wrap node))
    (hw : m = .written →
      Replays .written size least (fun a r r' => isUnread a = false ∧ Post r r') p p' Pre)
    (hv : Replays .verbatim size least (fun _ => Post) p p' Pre) :
    Replays m size least (fun _ => Post) (get >>= fun start => p >>= fun a => f a start)
      (get >>= fun start => p' >>= fun a => f a start) Pre :=
  .keepingEach isUnread
    (fun a hkeep => (hread a hkeep).imp fun _ hb => ⟨hb, fun _ _ h => h⟩)
    (fun a hkeep => (hunread a hkeep).imp fun _ hb => ⟨hb, fun _ _ _ h => h⟩) hw hv

/-- A form that is always kept unread. -/
theorem Replays.unread {p p' : Parser α} {Post Pre : Follow}
    (hv : Replays .verbatim size least (fun _ => Post) p p' Pre) :
    Replays m size least (fun _ => Post) (get >>= fun start => p >>= fun _ => keepVerbatim start)
      (get >>= fun start => p' >>= fun _ => keepVerbatim start) Pre := by
  refine .keeping (fun _ => true) nofun (fun _ _ => ⟨id, fun start => (bind_pure _).symm⟩) ?_ hv
  intro _ c a d hrun
  obtain ⟨read, written, hr, hw, hlr, hlw, -⟩ := hv c a d hrun
  exact ⟨read, written, hr, hw, hlr, hlw, fun _ h => nomatch h.1⟩

/-! ## Repetitions -/

/-- A step reads a token, and writes one where it matters for the second reading. -/
def Advances (m : Mode) (c d : Cursor) : Prop :=
  d.rest.length < c.rest.length ∧ (m = .written → c.written.length < d.written.length)

/-- A step that advances leaves something to read again, in either mode. -/
theorem Advances.pick_pos {c d : Cursor} {read written : List Token} (h : Advances m c d)
    (hread : c.rest = read ++ d.rest) (hwritten : d.written = written.reverse ++ c.written) :
    0 < (m.pick read written).length := by
  obtain ⟨hrest, hout⟩ := h
  rw [hread, List.length_append] at hrest
  cases m with
  | written =>
      have hlonger := hout rfl
      rw [hwritten, List.length_append, List.length_reverse] at hlonger
      rw [Mode.pick_written]
      omega
  | verbatim =>
      rw [Mode.pick_verbatim]
      omega

theorem Advances.trans_le {c d e : Cursor} (h : Advances m c d)
    (hrest : e.rest.length ≤ d.rest.length) (hwritten : d.written.length ≤ e.written.length) :
    Advances m c e :=
  ⟨by have := h.1; omega, fun hm => by have := h.2 hm; omega⟩

/-- What a run that replays has read and written at least. -/
theorem Replays.advances {Post : α → Follow} {Pre : Follow} {p p' : Parser α}
    (h : Replays m size 1 Post p p' Pre) {c d : Cursor} {a : α} (hrun : p c = some (a, d)) :
    Advances m c d := by
  obtain ⟨read, written, hread, hwritten, hlr, hlw, -⟩ := h c a d hrun
  rw [Advances, hread, hwritten, List.length_append, List.length_append, List.length_reverse]
  omega

/-- A step reads something, or it gives nothing and leaves everything as it is. -/
def Moves (m : Mode) (step : Parser (Option α)) : Prop :=
  ∀ c answer d, step c = some (answer, d) → (answer = none ∧ d = c) ∨ Advances m c d

namespace Moves

variable {step A B : Parser (Option α)}

theorem advances (h : Moves m step) (c : Cursor) (a : α) (d : Cursor)
    (hrun : step c = some (some a, d)) : Advances m c d :=
  (h c _ d hrun).resolve_left nofun

theorem none : Moves m (pure none : Parser (Option α)) := by
  intro c answer d hrun
  obtain ⟨rfl, rfl⟩ := pure_eq_some.mp hrun
  exact .inl ⟨rfl, rfl⟩

/-- A step that is read the same again moves on. -/
theorem of_replays {Post : Option α → Follow} {Pre : Follow} {step' : Parser (Option α)}
    (h : Replays m size 1 Post step step' Pre) : Moves m step :=
  fun _ _ _ hrun => .inr (h.advances hrun)

theorem ite {condition : Prop} [Decidable condition] (hA : Moves m A) (hB : Moves m B) :
    Moves m (if condition then A else B) := by
  split
  · exact hA
  · exact hB

theorem peek {question : Peek} {f : Bool → Parser (Option α)} (hf : ∀ b, Moves m (f b)) :
    Moves m (Source.peek question >>= f) := by
  intro c answer d hrun
  rw [peek_bind_apply] at hrun
  exact hf _ c answer d hrun

theorem get {f : Cursor → Parser (Option α)} (hf : ∀ c, Moves m (f c)) :
    Moves m (MonadState.get >>= f) := by
  intro c answer d hrun
  rw [bind_of_eq_some get_apply] at hrun
  exact hf _ c answer d hrun

end Moves

/-- What is read the same again never gives tokens back. -/
theorem Replays.retains {Post : α → Follow} {Pre : Follow} {p p' : Parser α}
    (h : Replays m size least Post p p' Pre) {c d : Cursor} {a : α} (hrun : p c = some (a, d)) :
    d.rest.length ≤ c.rest.length ∧ c.written.length ≤ d.written.length := by
  obtain ⟨read, written, hread, hwritten, -⟩ := h c a d hrun
  rw [hread, hwritten, List.length_append, List.length_append, List.length_reverse]
  omega

/-- The rounds of a repetition, with their results. -/
inductive Rounds (step : Parser (Option α)) : Cursor → List α → Cursor → Prop
  | stop {c d} : step c = some (none, d) → Rounds step c [] d
  | next {c d e a as} : step c = some (some a, d) → Rounds step d as e → Rounds step c (a :: as) e

/-- A repetition needs as much fuel as it has results. -/
theorem repeatStep_eq_some {step : Parser (Option α)} {fuel : Nat} {c d : Cursor} {as : List α} :
    repeatStep step fuel c = some (as, d) ↔ as.length < fuel ∧ Rounds step c as d := by
  constructor
  · intro hrun
    induction fuel generalizing c as with
    | zero => cases hrun
    | succ fuel ih =>
        obtain ⟨answer, e, hfirst, hmore⟩ := bind_eq_some.mp hrun
        cases answer with
        | none =>
            obtain ⟨rfl, rfl⟩ := pure_eq_some.mp hmore
            exact ⟨Nat.succ_pos _, .stop hfirst⟩
        | some a =>
            obtain ⟨others, e', hothers, hpure⟩ := bind_eq_some.mp hmore
            obtain ⟨rfl, rfl⟩ := pure_eq_some.mp hpure
            obtain ⟨hfuel, hrounds⟩ := ih hothers
            exact ⟨Nat.succ_lt_succ hfuel, .next hfirst hrounds⟩
  · rintro ⟨hfuel, hrounds⟩
    induction hrounds generalizing fuel with
    | stop hfirst =>
        obtain ⟨fuel, rfl⟩ := Nat.exists_eq_add_one_of_ne_zero (Nat.ne_zero_of_lt hfuel)
        exact bind_eq_some.mpr ⟨none, _, hfirst, rfl⟩
    | next hfirst _ ih =>
        obtain ⟨fuel, rfl⟩ := Nat.exists_eq_add_one_of_ne_zero (Nat.ne_zero_of_lt hfuel)
        exact bind_eq_some.mpr ⟨_, _, hfirst, bind_eq_some.mpr
          ⟨_, _, ih (Nat.lt_of_succ_lt_succ hfuel), rfl⟩⟩

/-- A loop reads its elements round by round; its fuel never runs out before the tokens do. -/
theorem repeated_eq_some {step : Parser (Option α)} {c d : Cursor} {as : List α} :
    repeated step c = some (as, d) ↔ as.length ≤ c.rest.length ∧ Rounds step c as d :=
  repeatStep_eq_some.trans (and_congr_left fun _ => Nat.lt_succ_iff)

/-- The rounds of a loop are gone through again, by induction on the rounds. -/
theorem Rounds.replayed {Inv End : Follow} {step step' : Parser (Option α)}
    (hstep : Replays m size 0 (OnSome (fun _ => Inv) End) step step' Inv)
    (hadvance : ∀ c a d, step c = some (some a, d) → Advances m c d) {c d : Cursor} {as : List α}
    (h : Rounds step c as d) :
    ∃ read written, c.rest = read ++ d.rest ∧ d.written = written.reverse ++ c.written ∧
      as.length ≤ (m.pick read written).length ∧
      ∀ rest, End d.rest rest → Token.sizeAll (m.pick read written ++ rest) ≤ size →
        Inv c.rest (m.pick read written ++ rest) ∧
        ∀ z, Rounds step' ⟨m.pick read written ++ rest, z⟩ as ⟨rest, written.reverse ++ z⟩ := by
  induction h with
  | stop hfirst =>
      obtain ⟨read, written, hread, hwritten, -, -, hreplay⟩ := hstep _ _ _ hfirst
      refine ⟨read, written, hread, hwritten, Nat.zero_le _, fun rest hrest hbound => ?_⟩
      obtain ⟨hinv, hagain⟩ := hreplay rest hrest hbound
      exact ⟨hinv, fun z => .stop (hagain z)⟩
  | next hfirst _ ih =>
      obtain ⟨read, written, hread, hwritten, -, -, hreplay⟩ := hstep _ _ _ hfirst
      obtain ⟨read', written', hread', hwritten', hlength, hreplay'⟩ := ih
      have hpos := (hadvance _ _ _ hfirst).pick_pos hread hwritten
      refine ⟨read ++ read', written ++ written', by rw [hread, hread', List.append_assoc],
        by rw [hwritten', hwritten, List.reverse_append, List.append_assoc], ?_,
        fun rest hrest hbound => ?_⟩
      · rw [Mode.pick_append, List.length_append, List.length_cons]
        omega
      rw [Mode.pick_append, List.append_assoc] at hbound ⊢
      have hsplit := Token.sizeAll_append (m.pick read written) (m.pick read' written' ++ rest)
      obtain ⟨hinv', hagain'⟩ := hreplay' rest hrest (by omega)
      obtain ⟨hinv, hagain⟩ := hreplay _ hinv' (by omega)
      refine ⟨hinv, fun z => .next (hagain z) ?_⟩
      rw [List.reverse_append, List.append_assoc]
      exact hagain' _

/-- A loop is read the same again if each of its rounds is and each of them reads something. -/
theorem repeated_replays {Inv End : Follow} {step step' : Parser (Option α)}
    (hstep : Replays m size 0 (OnSome (fun _ => Inv) End) step step' Inv)
    (hadvance : ∀ c a d, step c = some (some a, d) → Advances m c d) :
    Replays m size 0 (fun _ => End) (repeated step) (repeated step') Inv := by
  intro c as d hrun
  obtain ⟨read, written, hread, hwritten, hlength, hreplay⟩ :=
    (repeated_eq_some.mp hrun).2.replayed hstep hadvance
  refine ⟨read, written, hread, hwritten, Nat.zero_le _, Nat.zero_le _,
    fun rest hrest hbound => ?_⟩
  obtain ⟨hinv, hagain⟩ := hreplay rest hrest hbound
  refine ⟨hinv, fun z => repeated_eq_some.mpr ⟨?_, hagain z⟩⟩
  simp only [List.length_append]
  omega

/-- One relation or another, by the answer to a question. -/
def Either (question : Peek) (Yes No : Follow) : Follow :=
  fun u u' => (question u = true → Yes u u') ∧ (question u = false → No u u')

theorem Either.yes {question : Peek} {Yes No : Follow} {u u' : List Token}
    (hquestion : question u = true) (h : Yes u u') : Either question Yes No u u' :=
  ⟨fun _ => h, fun hno => Bool.noConfusion (hquestion.symm.trans hno)⟩

theorem Either.no {question : Peek} {Yes No : Follow} {u u' : List Token}
    (hquestion : question u = false) (h : No u u') : Either question Yes No u u' :=
  ⟨fun hyes => Bool.noConfusion (hquestion.symm.trans hyes), fun _ => h⟩

/-- What holds on either side of a question holds. -/
theorem Either.elim {question : Peek} {Yes No : Follow} {u u' : List Token} {P : Prop}
    (h : Either question Yes No u u') (hyes : question u = true → Yes u u' → P)
    (hno : question u = false → No u u' → P) : P := by
  cases hq : question u with
  | false => exact hno hq (h.2 hq)
  | true => exact hyes hq (h.1 hq)

/-- A list that goes on as long as a question says so is read the same again. -/
theorem many_replays {question : Peek} {Mid Next End : Follow} {p p' : Parser α}
    (hp : Replays m size 1 (fun _ => Mid) p p' Next)
    (hyes : ∀ u u', question u = true → Next u u' → question u' = true)
    (hno : ∀ u u', question u = false → End u u' → question u' = false)
    (hmid : ∀ u u', Either question Next End u u' → Mid u u') :
    Replays m size 0 (fun _ => End) (many question p) (many question p')
      (Either question Next End) := by
  refine repeated_replays ?_ ?_
  · refine .choice ?_ ?_ ?_
    · refine (Replays.map (hp.forget.after ?_)).before fun u u' h hq => .yes hq h
      exact fun _ u u' h => hmid u u' h
    · exact (Replays.pure none).before fun u u' h hq => .no hq h
    · intro u u' h
      exact h.elim (fun hq h => by rw [hq, hyes u u' hq h]) fun hq h => by rw [hq, hno u u' hq h]
  · intro c a d hrun
    rw [peek_bind_apply] at hrun
    split at hrun
    next =>
        obtain ⟨b, e, hrun', hpure⟩ := bind_eq_some.mp hrun
        obtain ⟨-, rfl⟩ := pure_eq_some.mp hpure
        exact hp.advances hrun'
    next => cases hrun

/-- Both readings have come to their ends. -/
def AtEnd : Follow := fun u u' => u = [] ∧ u' = []

theorem AtEnd.lead {u u' : List Token} (h : AtEnd u u') : Lead u u' := by
  obtain ⟨rfl, rfl⟩ := h
  exact .refl []

theorem atEnd_nil : AtEnd [] [] := ⟨rfl, rfl⟩

instance {p : Peek} [hp : Headed p] : Headed fun tokens => !p tokens where
  eq_of_kind_eq h := by rw [hp.eq_of_kind_eq h]

/-- A list up to the end of its group is read the same again. -/
theorem untilEnd_replays {Next : Follow} {p p' : Parser α}
    (hp : Replays m size 1 (fun _ u u' => AtEnd u u' ∨ Next u u') p p' Next)
    (hlead : ∀ u u', Next u u' → Lead u u') :
    Replays m size 0 (fun _ => AtEnd) (untilEnd p) (untilEnd p')
      fun u u' => AtEnd u u' ∨ Next u u' := by
  refine (many_replays hp ?_ ?_ ?_).before fun u u' h => h.elim (fun _ h => .inr h) fun _ h => .inl h
  · intro u u' hyes h
    have hempty : u.isEmpty = u'.isEmpty := Stable.eq_of_lead (hlead u u' h)
    rw [← hempty]
    exact hyes
  · rintro u u' hno ⟨-, rfl⟩
    rfl
  · exact fun u u' h => h.elim (fun _ h => .inr h) fun _ h => .inl h

/-- A list with separators is read the same again. -/
theorem separated_replays (separator : String) (stop : Peek) [hs : Stable stop] (End : Follow)
    {Mid Next : Follow} {p p' : Parser α} (hsep : isPlainOp separator = true)
    (hp : Replays m size 1 (fun _ => Mid) p p' Next)
    (hgo : ∀ u u', stop u = false → Next u u' → stop u' = false)
    (hstop : ∀ u u', stop u = true → End u u' → stop u' = true)
    (hmidEnd : ∀ u u', stop u = true → End u u' → Mid u u')
    (hmidSep : ∀ u u', isOp separator u = true → Lead u u' → Mid u u') :
    Replays m size 0 (fun _ => End) (separated separator stop p) (separated separator stop p')
      (Either stop End Next) := by
  have hne : separator.toList ≠ [] := by
    intro hnil
    rw [isPlainOp, hnil] at hsep
    cases hsep
  refine repeated_replays ?_ ?_
  · refine .choice ?_ ?_ ?_
    · exact (Replays.pure none).before fun u u' h hq => .yes hq h
    · refine (hp.forget.bind (Either stop End fun u u' => isOp separator u = true ∧ Lead u u')
        (fun a => ?_) ?_).before fun u u' h hq => .no hq h
      · refine .choice ?_ ?_ ?_
        · exact (Replays.pure (some a)).before fun u u' h hq => .yes hq (h.1 hq)
        · refine ((op_replays separator hne Any).seq _ fun _ => .pure (some a)).before ?_
          exact fun u u' h hq => .no hq ⟨h.1, h.lead hsep⟩
        · intro u u' h
          exact h.elim (fun hq h => by rw [hq, hstop u u' hq h])
            fun hq h => by rw [← hs.eq_of_lead h.2]
      · exact fun a u u' h => h.elim (hmidEnd u u') fun _ h => hmidSep u u' h.1 h.2
    · intro u u' h
      exact h.elim (fun hq h => by rw [hq, hstop u u' hq h])
        fun hq h => by rw [hq, hgo u u' hq h]
  -- Each round that goes on has read an element, so it comes closer to the end.
  · intro c a d hrun
    rw [peek_bind_apply] at hrun
    split at hrun
    next => cases hrun
    next =>
        obtain ⟨b, e, hrun', hrest⟩ := bind_eq_some.mp hrun
        have hfirst := hp.advances hrun'
        rw [peek_bind_apply] at hrest
        split at hrest
        next =>
            obtain ⟨-, rfl⟩ := pure_eq_some.mp hrest
            exact hfirst
        next =>
            obtain ⟨_, e', hop, hpure⟩ := bind_eq_some.mp hrest
            obtain ⟨-, rfl⟩ := pure_eq_some.mp hpure
            obtain ⟨-, rfl⟩ := op_eq_some.mp hop
            exact hfirst.trans_le (by simp) (by simp)

/-- A list whose elements need not start alike. -/
theorem commaElements_replays {Mid Next : Follow} {p p' : Parser α}
    (hp : Replays m size 1 (fun _ => Mid) p p' Next) (hgo : ∀ u u', Next u u' → u' ≠ [])
    (hmidEnd : Mid [] []) (hmidSep : ∀ u u', isOp "," u = true → Lead u u' → Mid u u') :
    Replays m size 0 (fun _ => AtEnd) (commaList p) (commaList p')
      (Either List.isEmpty AtEnd Next) := by
  refine separated_replays "," List.isEmpty AtEnd (by decide) hp ?_ ?_ ?_ hmidSep
  · exact fun u u' _ h => List.isEmpty_eq_false_iff.mpr (hgo u u' h)
  · rintro u u' - ⟨-, rfl⟩
    rfl
  · rintro u u' - ⟨rfl, rfl⟩
    exact hmidEnd

/-- A list with commas, up to the end of its group, is read the same again. -/
theorem commaList_replays {Mid : Follow} {p p' : Parser α}
    (hp : Replays m size 1 (fun _ => Mid) p p' Lead) (hmidEnd : Mid [] [])
    (hmidSep : ∀ u u', isOp "," u = true → Lead u u' → Mid u u') :
    Replays m size 0 (fun _ => AtEnd) (commaList p) (commaList p') Lead := by
  refine (separated_replays "," List.isEmpty AtEnd (by decide) hp ?_ ?_ ?_ hmidSep).before
    fun u u' h => h.elim (fun _ h => h.lead) fun _ h => h
  · exact fun u u' hno h => (Stable.eq_of_lead h).symm.trans hno
  · rintro u u' - ⟨-, rfl⟩
    rfl
  · rintro u u' - ⟨rfl, rfl⟩
    exact hmidEnd

/-! ## Sums -/

/-- The rounds of a list joined by `+` are gone through again, by induction on the fuel. -/
theorem plusList_go_replays {Inv : Bool → Follow} {End : Follow}
    {step step' : Bool → Parser (Option (α × Bool))}
    (hstep : ∀ more, Replays m size 0 (OnSome (fun answer => Inv answer.2) End)
      (step more) (step' more) (Inv more))
    (hadvance : ∀ more c a d, step more c = some (some a, d) → Advances m c d)
    (fuel : Nat) (more : Bool) {c d : Cursor} {as : List α}
    (hrun : plusList.go step fuel more c = some (as, d)) :
    ∃ read written, c.rest = read ++ d.rest ∧ d.written = written.reverse ++ c.written ∧
      ∀ rest, End d.rest rest → Token.sizeAll (m.pick read written ++ rest) ≤ size →
        Inv more c.rest (m.pick read written ++ rest) ∧
        ∀ fuel' z, (m.pick read written).length < fuel' →
          plusList.go step' fuel' more ⟨m.pick read written ++ rest, z⟩ =
            some (as, ⟨rest, written.reverse ++ z⟩) := by
  -- By induction on the fuel of the first reading; the second one has fuel of its own, and needs
  -- more than it has tokens to read. `Inv` is what both readings share before each round.
  induction fuel generalizing c as more with
  | zero => cases hrun
  | succ fuel ih =>
      obtain ⟨answer, e, hfirst, hmore⟩ := bind_eq_some.mp hrun
      obtain ⟨read, written, hread, hwritten, -, -, hreplay⟩ := hstep more _ _ _ hfirst
      cases answer with
      | none =>
          obtain ⟨rfl, rfl⟩ := pure_eq_some.mp hmore
          refine ⟨read, written, hread, hwritten, fun rest hrest hbound => ?_⟩
          obtain ⟨hinv, hagain⟩ := hreplay rest hrest hbound
          refine ⟨hinv, fun fuel' z hfuel => ?_⟩
          obtain ⟨fuel', rfl⟩ := Nat.exists_eq_add_one_of_ne_zero (Nat.ne_zero_of_lt hfuel)
          exact bind_eq_some.mpr ⟨none, _, hagain z, rfl⟩
      | some answer =>
          obtain ⟨a, next⟩ := answer
          obtain ⟨others, e', hothers, hpure⟩ := bind_eq_some.mp hmore
          obtain ⟨rfl, rfl⟩ := pure_eq_some.mp hpure
          obtain ⟨read', written', hread', hwritten', hreplay'⟩ := ih next hothers
          refine ⟨read ++ read', written ++ written', by rw [hread, hread', List.append_assoc],
            by rw [hwritten', hwritten, List.reverse_append, List.append_assoc],
            fun rest hrest hbound => ?_⟩
          rw [Mode.pick_append, List.append_assoc] at hbound
          -- The round has written a token, so what is left is smaller than the bound.
          have hpos := (hadvance _ _ _ _ hfirst).pick_pos hread hwritten
          have hsplit := Token.sizeAll_append (m.pick read written)
            (m.pick read' written' ++ rest)
          obtain ⟨hinv', hagain'⟩ := hreplay' rest hrest (by omega)
          obtain ⟨hinv, hagain⟩ := hreplay _ hinv' (by omega)
          rw [Mode.pick_append, List.append_assoc]
          refine ⟨hinv, fun fuel' z hfuel => ?_⟩
          rw [List.length_append] at hfuel
          obtain ⟨fuel', rfl⟩ := Nat.exists_eq_add_one_of_ne_zero (Nat.ne_zero_of_lt hfuel)
          refine bind_eq_some.mpr ⟨some (a, next), _, hagain z, ?_⟩
          refine bind_eq_some.mpr ⟨others, _, hagain' fuel' _ (by omega), ?_⟩
          rw [List.reverse_append, List.append_assoc]
          rfl

/-- A round of a sum: an element and whether a plus sign follows it, unless the sum ends. -/
def plusStep (stop : Peek) (p : Parser α) (more : Bool) : Parser (Option (α × Bool)) := do
  if !more || (← peek stop) then return none
  else
    let a ← p
    return some (a, ← op? "+")

theorem plusList_apply (stop : Peek) (p : Parser α) (c : Cursor) :
    plusList stop p c = plusList.go (plusStep stop p) (c.rest.length + 1) true c := rfl

/-- Each round of a list joined by `+` reads something. -/
theorem plusStep_advances {stop : Peek} {Mid Next : Follow} {p p' : Parser α}
    (hp : Replays m size 1 (fun _ => Mid) p p' Next) (more : Bool) (c : Cursor) (answer : α × Bool)
    (d : Cursor) (hrun : plusStep stop p more c = some (some answer, d)) : Advances m c d := by
  unfold plusStep at hrun
  rw [peek_bind_apply] at hrun
  split at hrun
  next => cases hrun
  next =>
      obtain ⟨a, e, helement, hrest⟩ := bind_eq_some.mp hrun
      have hfirst := hp.advances helement
      rw [op?_bind, peek_bind_apply] at hrest
      split at hrest
      next =>
          obtain ⟨_, e', hop, hpure⟩ := bind_eq_some.mp hrest
          obtain ⟨-, rfl⟩ := pure_eq_some.mp hpure
          obtain ⟨-, rfl⟩ := op_eq_some.mp hop
          exact hfirst.trans_le (by simp) (by simp)
      next =>
          obtain ⟨-, rfl⟩ := pure_eq_some.mp hrest
          exact hfirst

/-- Before a round, a sum that goes on may yet stop, and one that does not go on has ended. -/
def PlusInv (stop : Peek) (End Next : Follow) (more : Bool) : Follow :=
  if more = true then Either stop End Next else End

/-- One round of a list joined by `+` is read the same again. -/
theorem plusStep_replays {stop : Peek} {Mid Next End : Follow} {p p' : Parser α}
    (hp : Replays m size 1 (fun _ => Mid) p p' Next)
    (hgo : ∀ u u', stop u = false → Next u u' → stop u' = false)
    (hstop : ∀ u u', stop u = true → End u u' → stop u' = true)
    (hplus : ∀ u u', End u u' → Absent (isOp "+") u u')
    (hmid : ∀ u u', Either (isOp "+") Lead End u u' → Mid u u') (more : Bool) :
    Replays m size 0 (OnSome (fun answer => PlusInv stop End Next answer.2) End)
      (plusStep stop p more) (plusStep stop p' more) (PlusInv stop End Next more) := by
  cases more with
  | false => exact Replays.ignore (Replays.pure none)
  | true =>
      refine .choice ?_ ?_ ?_
      · exact (Replays.pure none).before fun u u' h hq => .yes hq h
      · refine (hp.forget.bind (Either (isOp "+") Lead End) (fun a => ?_) fun a => hmid).before
          fun u u' h hq => .no hq h
        rw [op?_bind]
        refine .choice ?_ ?_ ?_
        · exact ((op_closed "+").seq _ fun _ => .pure (some (a, true))).before
            fun u u' h hq => .yes hq h
        · exact (Replays.pure (some (a, false))).before fun u u' h hq => .no hq h
        · intro u u' h
          exact h.elim (fun hq h => (Stable.eq_of_lead h).symm)
            fun hq h => by rw [hq, hplus u u' h hq]
      · intro u u' h
        exact h.elim (fun hq h => by rw [hq, hstop u u' hq h])
          fun hq h => by rw [hq, hgo u u' hq h]

/-- A list joined by `+` is read the same again. -/
theorem plusList_replays {stop : Peek} {Mid Next End : Follow} {p p' : Parser α}
    (hp : Replays m size 1 (fun _ => Mid) p p' Next)
    (hgo : ∀ u u', stop u = false → Next u u' → stop u' = false)
    (hstop : ∀ u u', stop u = true → End u u' → stop u' = true)
    (hplus : ∀ u u', End u u' → Absent (isOp "+") u u')
    (hmid : ∀ u u', Either (isOp "+") Lead End u u' → Mid u u') :
    Replays m size 0 (fun _ => End) (plusList stop p) (plusList stop p')
      (Either stop End Next) := by
  intro c as d hrun
  rw [plusList_apply] at hrun
  obtain ⟨read, written, hread, hwritten, hreplay⟩ := plusList_go_replays
    (plusStep_replays hp hgo hstop hplus hmid) (plusStep_advances hp) _ true hrun
  refine ⟨read, written, hread, hwritten, Nat.zero_le _, Nat.zero_le _,
    fun rest hrest hbound => ?_⟩
  obtain ⟨hinv, hagain⟩ := hreplay rest hrest hbound
  refine ⟨hinv, fun z => ?_⟩
  rw [plusList_apply]
  refine hagain _ z ?_
  simp only [List.length_append]
  omega

/-! ## Growing a result -/

/-- Steps of a growing result, each of which reads something. -/
inductive Grows (step : α → Parser (Option α)) : α → Cursor → α → Cursor → Prop
  | refl {a c} : Grows step a c a c
  | next {a b b' c d e} : step a c = some (some b, d) → d.rest.length < c.rest.length →
      Grows step b d b' e → Grows step a c b' e

theorem Grows.single {step : α → Parser (Option α)} {a b : α} {c d : Cursor}
    (h : step a c = some (some b, d)) (hlength : d.rest.length < c.rest.length) :
    Grows step a c b d :=
  .next h hlength .refl

theorem Grows.trans {step : α → Parser (Option α)} {a b b' : α} {c d e : Cursor}
    (h : Grows step a c b d) (h' : Grows step b d b' e) : Grows step a c b' e := by
  induction h with
  | refl => exact h'
  | next hstep hlength _ ih => exact .next hstep hlength (ih h')

/-- More fuel than tokens is enough for all of the steps. -/
theorem Grows.iterateStep {step : α → Parser (Option α)} {a b : α} {c d : Cursor}
    (h : Grows step a c b d) {r : α × Cursor}
    (hmore : ∀ fuel, d.rest.length < fuel → iterateStep step fuel b d = some r) (fuel : Nat)
    (hfuel : c.rest.length < fuel) : iterateStep step fuel a c = some r := by
  induction h generalizing fuel with
  | refl => exact hmore fuel hfuel
  | next hstep hlength _ ih =>
      obtain ⟨fuel, rfl⟩ := Nat.exists_eq_add_one_of_ne_zero (Nat.ne_zero_of_lt hfuel)
      exact bind_eq_some.mpr ⟨_, _, hstep, ih hmore fuel (by omega)⟩

/-- The answer of a step in the second reading: the result grows in one or more steps, or it is
complete. -/
def Answers (step : α → Parser (Option α)) (a : α) (c : Cursor) : Option α → Cursor → Prop
  | some b, d => Grows step a c b d
  | none, d => step a c = some (none, d)

/-- A step that answers wherever another does gives its answers. -/
theorem Answers.mono {step step' : α → Parser (Option α)}
    (hstep : ∀ a c answer d, step a c = some (answer, d) → step' a c = some (answer, d)) {a : α}
    {c d : Cursor} {answer : Option α} (h : Answers step a c answer d) :
    Answers step' a c answer d := by
  cases answer with
  | none => exact hstep _ _ _ _ h
  | some b =>
      have hgrows : Grows step a c b d := h
      change Grows step' a c b d
      induction hgrows with
      | refl => exact .refl
      | next hfirst hlength hmore ih => exact .next (hstep _ _ _ _ hfirst) hlength (ih hmore)

/-- Like `Replays`, where a step of the first reading may take several steps in the second one. -/
def Regrows (m : Mode) (size : Nat) (Inv Post : α → Follow) (step step' : α → Parser (Option α)) :
    Prop :=
  ∀ a c answer d, step a c = some (answer, d) → ∃ read written, c.rest = read ++ d.rest ∧
    d.written = written.reverse ++ c.written ∧
    ∀ rest, OnSome Inv (Post a) answer d.rest rest →
      Token.sizeAll (m.pick read written ++ rest) ≤ size →
      Inv a c.rest (m.pick read written ++ rest) ∧
      ∀ z, Answers step' a ⟨m.pick read written ++ rest, z⟩ answer ⟨rest, written.reverse ++ z⟩

/-- A step that is read the same again and advances grows its result again. -/
theorem Regrows.of_replays {Inv Post : α → Follow} {step step' : α → Parser (Option α)}
    (hstep : ∀ a, Replays m size 0 (OnSome Inv (Post a)) (step a) (step' a) (Inv a))
    (hadvance : ∀ a c b d, step a c = some (some b, d) → Advances m c d) :
    Regrows m size Inv Post step step' := by
  intro a c answer d hrun
  obtain ⟨read, written, hread, hwritten, -, -, hreplay⟩ := hstep a c answer d hrun
  refine ⟨read, written, hread, hwritten, fun rest hrest hbound => ?_⟩
  obtain ⟨hinv, hagain⟩ := hreplay rest hrest hbound
  refine ⟨hinv, fun z => ?_⟩
  cases answer with
  | none => exact hagain z
  | some b =>
      have hpos := (hadvance a c b d hrun).pick_pos hread hwritten
      refine .single (hagain z) ?_
      simp only [List.length_append]
      omega

/-- Growing a result goes the same way again, by induction on the fuel. -/
theorem Regrows.iterateStep {Inv Post : α → Follow} {step step' : α → Parser (Option α)}
    (hstep : Regrows m size Inv Post step step') (fuel : Nat) {c d : Cursor} {a b : α}
    (hrun : iterateStep step fuel a c = some (b, d)) :
    ∃ read written, c.rest = read ++ d.rest ∧ d.written = written.reverse ++ c.written ∧
      ∀ rest, Post b d.rest rest → Token.sizeAll (m.pick read written ++ rest) ≤ size →
        Inv a c.rest (m.pick read written ++ rest) ∧
        ∀ fuel' z, (m.pick read written ++ rest).length < fuel' →
          Source.iterateStep step' fuel' a ⟨m.pick read written ++ rest, z⟩ =
            some (b, ⟨rest, written.reverse ++ z⟩) := by
  induction fuel generalizing c a with
  | zero => cases hrun
  | succ fuel ih =>
      obtain ⟨answer, e, hfirst, hmore⟩ := bind_eq_some.mp hrun
      obtain ⟨read, written, hread, hwritten, hreplay⟩ := hstep a _ _ _ hfirst
      cases answer with
      | none =>
          obtain ⟨rfl, rfl⟩ := pure_eq_some.mp hmore
          refine ⟨read, written, hread, hwritten, fun rest hrest hbound => ?_⟩
          obtain ⟨hinv, hagain⟩ := hreplay rest hrest hbound
          refine ⟨hinv, fun fuel' z hfuel => ?_⟩
          obtain ⟨fuel', rfl⟩ := Nat.exists_eq_add_one_of_ne_zero (Nat.ne_zero_of_lt hfuel)
          exact bind_eq_some.mpr ⟨none, _, hagain z, rfl⟩
      | some a' =>
          obtain ⟨read', written', hread', hwritten', hreplay'⟩ := ih hmore
          refine ⟨read ++ read', written ++ written', by rw [hread, hread', List.append_assoc],
            by rw [hwritten', hwritten, List.reverse_append, List.append_assoc],
            fun rest hrest hbound => ?_⟩
          rw [Mode.pick_append, List.append_assoc] at hbound ⊢
          have hsplit := Token.sizeAll_append (m.pick read written)
            (m.pick read' written' ++ rest)
          obtain ⟨hinv', hagain'⟩ := hreplay' rest hrest (by omega)
          obtain ⟨hinv, hagain⟩ := hreplay _ hinv' (by omega)
          refine ⟨hinv, fun fuel' z hfuel => ?_⟩
          refine (hagain z).iterateStep (fun fuel'' hfuel'' => ?_) fuel' hfuel
          rw [hagain' fuel'' _ hfuel'', List.reverse_append, List.append_assoc]

/-- What a step grows from a start is grown again, whatever the fuel was. -/
theorem Regrows.iterate {Inv Post : α → Follow} {step step' : α → Parser (Option α)}
    (hstep : Regrows m size Inv Post step step') (a : α) :
    Replays m size 0 Post (iterate step a) (iterate step' a) (Inv a) := by
  intro c b d hrun
  obtain ⟨read, written, hread, hwritten, hreplay⟩ := hstep.iterateStep (c.rest.length + 1) hrun
  refine ⟨read, written, hread, hwritten, Nat.zero_le _, Nat.zero_le _,
    fun rest hrest hbound => ?_⟩
  obtain ⟨hinv, hagain⟩ := hreplay rest hrest hbound
  exact ⟨hinv, fun z => hagain _ z (Nat.lt_succ_self _)⟩

/-- What is read step by step from a start is read the same again. -/
theorem iterate_replays (Inv : α → Follow) {Post : α → Follow} {step step' : α → Parser (Option α)}
    (hstep : ∀ a, Replays m size 0 (OnSome Inv (Post a)) (step a) (step' a) (Inv a))
    (hadvance : ∀ a c b d, step a c = some (some b, d) → Advances m c d) (a : α) :
    Replays m size 0 Post (iterate step a) (iterate step' a) (Inv a) :=
  (Regrows.of_replays hstep hadvance).iterate a

/-! ## Recursion with fuel -/

/-- Like `Replays`, for a second parser that is given fuel: a unit for each token of the second
reading is enough, and `extra` units. -/
def Fueled (m : Mode) (size least extra : Nat) (Post : α → Follow) (p : Parser α)
    (p' : Nat → Parser α) (Pre : Follow) : Prop :=
  ∀ c a d, p c = some (a, d) → ∃ read written, c.rest = read ++ d.rest ∧
    d.written = written.reverse ++ c.written ∧ least ≤ read.length ∧ least ≤ written.length ∧
    ∀ rest, Post a d.rest rest → Token.sizeAll (m.pick read written ++ rest) ≤ size →
      Pre c.rest (m.pick read written ++ rest) ∧
      ∀ fuel, (m.pick read written).length + extra ≤ fuel →
        ∀ z, p' fuel ⟨m.pick read written ++ rest, z⟩ = some (a, ⟨rest, written.reverse ++ z⟩)

namespace Fueled

variable {extra extra' least' : Nat} {Post Mid : α → Follow} {Pre Pre' : Follow} {p : Parser α}
  {p' : Nat → Parser α}

/-- A reading that needs no fuel is one with any fuel. -/
theorem of_replays {q : Parser α} (h : Replays m size least Post p q Pre) :
    Fueled m size least extra Post p (fun _ => q) Pre := by
  intro c a d hrun
  obtain ⟨read, written, hread, hwritten, hlr, hlw, hreplay⟩ := h c a d hrun
  refine ⟨read, written, hread, hwritten, hlr, hlw, fun rest hrest hbound => ?_⟩
  obtain ⟨hstart, hagain⟩ := hreplay rest hrest hbound
  exact ⟨hstart, fun _ _ => hagain⟩

theorem before (h : Fueled m size least extra Post p p' Pre)
    (hpre : ∀ u u', Pre u u' → Pre' u u') : Fueled m size least extra Post p p' Pre' := by
  intro c a d hrun
  obtain ⟨read, written, hread, hwritten, hlr, hlw, hreplay⟩ := h c a d hrun
  refine ⟨read, written, hread, hwritten, hlr, hlw, fun rest hrest hbound => ?_⟩
  obtain ⟨hstart, hagain⟩ := hreplay rest hrest hbound
  exact ⟨hpre _ _ hstart, hagain⟩

theorem forget (h : Fueled m size least extra Post p p' Pre) :
    Fueled m size 0 extra Post p p' Pre := by
  intro c a d hrun
  obtain ⟨read, written, hread, hwritten, -, -, hreplay⟩ := h c a d hrun
  exact ⟨read, written, hread, hwritten, Nat.zero_le _, Nat.zero_le _, hreplay⟩

theorem failure : Fueled m size least extra Post failure p' Pre := by
  intro c a d hrun
  cases hrun

/-- The recursion takes a unit of fuel. -/
theorem step (h : Fueled m size least 0 Post p (fun fuel => p' (fuel + 1)) Pre) :
    Fueled m size least 1 Post p p' Pre := by
  intro c a d hrun
  obtain ⟨read, written, hread, hwritten, hlr, hlw, hreplay⟩ := h c a d hrun
  refine ⟨read, written, hread, hwritten, hlr, hlw, fun rest hrest hbound => ?_⟩
  obtain ⟨hstart, hagain⟩ := hreplay rest hrest hbound
  refine ⟨hstart, fun fuel hfuel => ?_⟩
  obtain ⟨fuel, rfl⟩ := Nat.exists_eq_add_one_of_ne_zero (show fuel ≠ 0 by omega)
  exact hagain fuel (by omega)

/-- What is read before the recursion pays for it. -/
theorem bind {q q' : Parser β} {f : β → Parser α} {f' : Nat → β → Parser α} {Mid : β → Follow}
    (hq : Replays m size least' Mid q q' Pre) (Next : β → Follow)
    (hf : ∀ b, Fueled m size 0 extra' Post (f b) (fun fuel => f' fuel b) (Next b))
    (hmid : ∀ b u u', Next b u u' → Mid b u u') (hextra : extra' ≤ extra + least')
    (hleast : least ≤ least' := by omega) :
    Fueled m size least extra Post (q >>= f) (fun fuel => q' >>= f' fuel) Pre := by
  intro c a d hrun
  obtain ⟨b, e, hrunq, hrunf⟩ := bind_eq_some.mp hrun
  obtain ⟨read, written, hread, hwritten, hlr, hlw, hreplay⟩ := hq c b e hrunq
  obtain ⟨read', written', hread', hwritten', -, -, hreplay'⟩ := hf b e a d hrunf
  refine ⟨read ++ read', written ++ written', by rw [hread, hread', List.append_assoc],
    by rw [hwritten', hwritten, List.reverse_append, List.append_assoc],
    by rw [List.length_append]; omega, by rw [List.length_append]; omega,
    fun rest hrest hbound => ?_⟩
  rw [Mode.pick_append, List.append_assoc] at hbound ⊢
  have hpicked : least' ≤ (m.pick read written).length := by cases m <;> assumption
  have hsplit := Token.sizeAll_append (m.pick read written) (m.pick read' written' ++ rest)
  obtain ⟨hnext, hagain'⟩ := hreplay' rest hrest (by omega)
  obtain ⟨hstart, hagain⟩ := hreplay _ (hmid b _ _ hnext) hbound
  refine ⟨hstart, fun fuel hfuel z => ?_⟩
  rw [List.length_append] at hfuel
  dsimp only at hagain' ⊢
  rw [bind_of_eq_some (hagain z), hagain' fuel (by omega), List.reverse_append, List.append_assoc]

theorem result {f : α → β} {Post : β → Follow} (hp : Fueled m size least extra Mid p p' Pre)
    (hpost : ∀ a r r', Post (f a) r r' → Mid a r r') :
    Fueled m size least extra Post (p >>= fun a => pure (f a))
      (fun fuel => p' fuel >>= fun a => pure (f a)) Pre := by
  intro c b d hrun
  obtain ⟨a, e, hrunp, hpure⟩ := bind_eq_some.mp hrun
  obtain ⟨rfl, rfl⟩ := pure_eq_some.mp hpure
  obtain ⟨read, written, hread, hwritten, hlr, hlw, hreplay⟩ := hp c a e hrunp
  refine ⟨read, written, hread, hwritten, hlr, hlw, fun rest hrest hbound => ?_⟩
  obtain ⟨hstart, hagain⟩ := hreplay rest (hpost a _ _ hrest) hbound
  exact ⟨hstart, fun fuel hfuel z => (bind_of_eq_some (hagain fuel hfuel z) _).trans rfl⟩

theorem each {question : Peek} {f : Bool → Parser α} {f' : Nat → Bool → Parser α}
    (hf : ∀ b, Fueled m size least extra Post (f b) (fun fuel => f' fuel b)
      fun u u' => question u = b → Pre u u')
    (hanswer : ∀ u u', Pre u u' → question u' = question u) :
    Fueled m size least extra Post (peek question >>= f) (fun fuel => peek question >>= f' fuel) Pre := by
  intro c a d hrun
  rw [peek_bind_apply] at hrun
  obtain ⟨read, written, hread, hwritten, hlr, hlw, hreplay⟩ := hf _ c a d hrun
  refine ⟨read, written, hread, hwritten, hlr, hlw, fun rest hrest hbound => ?_⟩
  obtain ⟨hstart, hagain⟩ := hreplay rest hrest hbound
  refine ⟨hstart rfl, fun fuel hfuel z => ?_⟩
  dsimp only at hagain ⊢
  rw [peek_bind_apply, hanswer _ _ (hstart rfl)]
  exact hagain fuel hfuel z

theorem choice {question : Peek} {A B : Parser α} {A' B' : Nat → Parser α}
    (hA : Fueled m size least extra Post A A' fun u u' => question u = true → Pre u u')
    (hB : Fueled m size least extra Post B B' fun u u' => question u = false → Pre u u')
    (hanswer : ∀ u u', Pre u u' → question u' = question u) :
    Fueled m size least extra Post (peek question >>= fun b => if b = true then A else B)
      (fun fuel => peek question >>= fun b => if b = true then A' fuel else B' fuel) Pre := by
  refine each (fun b => ?_) hanswer
  cases b
  · exact hB
  · exact hA

theorem choiceWord {text : String} {f : Bool → Parser α} {f' : Nat → Bool → Parser α}
    (hyes : Fueled m size least extra Post (word text >>= fun _ => f true)
      (fun fuel => word text >>= fun _ => f' fuel true) fun u u' => isWord text u = true → Pre u u')
    (hno : Fueled m size least extra Post (f false) (fun fuel => f' fuel false)
      fun u u' => isWord text u = false → Pre u u')
    (hanswer : ∀ u u', Pre u u' → isWord text u' = isWord text u) :
    Fueled m size least extra Post (Source.word? text >>= f)
      (fun fuel => Source.word? text >>= f' fuel) Pre := by
  simp only [word?_bind]
  exact choice hyes hno hanswer

theorem choiceOp {text : String} {f : Bool → Parser α} {f' : Nat → Bool → Parser α}
    (hyes : Fueled m size least extra Post (op text >>= fun _ => f true)
      (fun fuel => op text >>= fun _ => f' fuel true) fun u u' => isOp text u = true → Pre u u')
    (hno : Fueled m size least extra Post (f false) (fun fuel => f' fuel false)
      fun u u' => isOp text u = false → Pre u u')
    (hanswer : ∀ u u', Pre u u' → isOp text u' = isOp text u) :
    Fueled m size least extra Post (Source.op? text >>= f) (fun fuel => Source.op? text >>= f' fuel)
      Pre := by
  simp only [op?_bind]
  exact choice hyes hno hanswer

/-- As many units of fuel as there are tokens, and one more. -/
theorem replays {p : Nat → Parser α} (h : ∀ fuel, Fueled m size least 1 Post (p fuel) p' Pre) :
    Replays m size least Post (get >>= fun c => p (c.rest.length + 1))
      (get >>= fun c => p' (c.rest.length + 1)) Pre := by
  intro c a d hrun
  obtain ⟨read, written, hread, hwritten, hlr, hlw, hreplay⟩ := h (c.rest.length + 1) c a d hrun
  refine ⟨read, written, hread, hwritten, hlr, hlw, fun rest hrest hbound => ?_⟩
  obtain ⟨hstart, hagain⟩ := hreplay rest hrest hbound
  refine ⟨hstart, fun z => ?_⟩
  rw [bind_of_eq_some get_apply]
  exact hagain _ (by simp only [List.length_append]; omega) z

end Fueled

end ActionUnits.Source
