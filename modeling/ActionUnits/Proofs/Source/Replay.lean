import ActionUnits.Proofs.Source.Lead
import ActionUnits.Proofs.Source.Run
import Mathlib.Tactic.Common

/-! # Reading what was written

A parser replays if it reads back what a run of it has written, with the same
result, and writes the same once more. What follows in the second reading may
differ from what followed in the first one, as long as the parser's questions
about it are answered alike; a follow relation says so. The tokens that a parser
gives up on are written as they were read, so a parser must also replay on what
it has read, which is the other mode.
-/

namespace ActionUnits.Token

theorem sizeAll_append (first second : List Token) :
    sizeAll (first ++ second) = sizeAll first + sizeAll second := by
  induction first with
  | nil => simp [sizeAll]
  | cons token tokens ih => simp [sizeAll, ih, Nat.add_assoc]

theorem size_pos (token : Token) : 0 < token.size := by
  cases token <;> simp [size]

/-- There are no more tokens than their size. -/
theorem length_le_sizeAll (tokens : List Token) : tokens.length ≤ sizeAll tokens := by
  induction tokens with
  | nil => simp
  | cons token tokens ih =>
      have hpos := size_pos token
      simp only [List.length_cons, sizeAll]
      omega

end ActionUnits.Token

namespace ActionUnits.Source

/-- Whether a parser reads again what it has written, or what it has read. -/
inductive Mode where
  | written
  | verbatim

/-- The tokens that are read again. -/
def Mode.pick : Mode → List Token → List Token → List Token
  | .written, _, out => out
  | .verbatim, read, _ => read

@[simp] theorem Mode.pick_written (read written : List Token) :
    Mode.written.pick read written = written := rfl

@[simp] theorem Mode.pick_verbatim (read written : List Token) :
    Mode.verbatim.pick read written = read := rfl

@[simp] theorem Mode.pick_self (m : Mode) (tokens : List Token) : m.pick tokens tokens = tokens := by
  cases m <;> rfl

/-- What is read again of two parts is read again of each. -/
theorem Mode.pick_append (m : Mode) (read written read' written' : List Token) :
    m.pick (read ++ read') (written ++ written') = m.pick read written ++ m.pick read' written' := by
  cases m <;> rfl

/-- What followed in a first reading, against what follows in a second one. -/
abbrev Follow := List Token → List Token → Prop

def Any : Follow := fun _ _ => True

def OnSome {α : Type} (Some : α → Follow) (None : Follow) : Option α → Follow
  | some a => Some a
  | none => None

/-- The runs of `p` are repeated by `p'`: on what `p` has read or written, if what follows is
related by `Post` and there are at most `size` tokens. Then the starts of both readings are related
by `Pre`. A run reads and writes at least `least` tokens. -/
def Replays {α : Type} (m : Mode) (size least : Nat) (Post : α → Follow) (p p' : Parser α)
    (Pre : Follow) : Prop :=
  ∀ c a d, p c = some (a, d) → ∃ read written, c.rest = read ++ d.rest ∧
    d.written = written.reverse ++ c.written ∧ least ≤ read.length ∧ least ≤ written.length ∧
    ∀ rest, Post a d.rest rest → Token.sizeAll (m.pick read written ++ rest) ≤ size →
      Pre c.rest (m.pick read written ++ rest) ∧
      ∀ z, p' ⟨m.pick read written ++ rest, z⟩ = some (a, ⟨rest, written.reverse ++ z⟩)

namespace Replays

variable {α β : Type} {m : Mode} {size size' least least' : Nat} {Post Mid : α → Follow}
  {Pre Pre' : Follow} {p p' : Parser α}

/-! ## Weakening -/

/-- A reading may be asked to hold before less and after more. -/
theorem weaken (h : Replays m size least Post p p' Pre) {Post' : α → Follow}
    (hpost : ∀ a r r', Post' a r r' → Post a r r') (hpre : ∀ u u', Pre u u' → Pre' u u')
    (hsize : size' ≤ size) (hleast : least' ≤ least) :
    Replays m size' least' Post' p p' Pre' := by
  intro c a d hrun
  obtain ⟨read, written, hread, hwritten, hlr, hlw, hreplay⟩ := h c a d hrun
  refine ⟨read, written, hread, hwritten, by omega, by omega, fun rest hrest hbound => ?_⟩
  obtain ⟨hstart, hagain⟩ := hreplay rest (hpost _ _ _ hrest) (by omega)
  exact ⟨hpre _ _ hstart, hagain⟩

theorem before (h : Replays m size least Post p p' Pre) (hpre : ∀ u u', Pre u u' → Pre' u u') :
    Replays m size least Post p p' Pre' :=
  h.weaken (fun _ _ _ h => h) hpre (Nat.le_refl _) (Nat.le_refl _)

theorem after (h : Replays m size least Post p p' Pre) {Post' : α → Follow}
    (hpost : ∀ a r r', Post' a r r' → Post a r r') : Replays m size least Post' p p' Pre :=
  h.weaken hpost (fun _ _ h => h) (Nat.le_refl _) (Nat.le_refl _)

theorem smaller (h : Replays m (size + 1) least Post p p' Pre) :
    Replays m size least Post p p' Pre :=
  h.weaken (fun _ _ _ h => h) (fun _ _ h => h) (Nat.le_succ _) (Nat.le_refl _)

theorem lower (h : Replays m (size + 1) least Post p p' Pre) : Replays m size 0 Post p p' Pre :=
  h.weaken (fun _ _ _ h => h) (fun _ _ h => h) (Nat.le_succ _) (Nat.zero_le _)

theorem forget (h : Replays m size least Post p p' Pre) : Replays m size 0 Post p p' Pre :=
  h.weaken (fun _ _ _ h => h) (fun _ _ h => h) (Nat.le_refl _) (Nat.zero_le _)

/-- What is known of the start of a first reading. -/
theorem noting (h : Replays m size least Post p p' Pre) {Q : List Token → Prop}
    (hQ : ∀ {c a d}, p c = some (a, d) → Q c.rest) :
    Replays m size least Post p p' fun u u' => Q u ∧ Pre u u' := by
  intro c a d hrun
  obtain ⟨read, written, hread, hwritten, hlr, hlw, hreplay⟩ := h c a d hrun
  refine ⟨read, written, hread, hwritten, hlr, hlw, fun rest hrest hbound => ?_⟩
  obtain ⟨hstart, hagain⟩ := hreplay rest hrest hbound
  exact ⟨⟨hQ hrun, hstart⟩, hagain⟩

/-- What both readings tell about their starts, as far as they end alike. -/
theorem comparing (h : Replays m size least Post p p' Pre) {Q : Follow}
    (hQ : ∀ {c a d c' d'}, p c = some (a, d) → p' c' = some (a, d') → Post a d.rest d'.rest →
      Q c.rest c'.rest) :
    Replays m size least Post p p' fun u u' => Q u u' ∧ Pre u u' := by
  intro c a d hrun
  obtain ⟨read, written, hread, hwritten, hlr, hlw, hreplay⟩ := h c a d hrun
  refine ⟨read, written, hread, hwritten, hlr, hlw, fun rest hrest hbound => ?_⟩
  obtain ⟨hstart, hagain⟩ := hreplay rest hrest hbound
  exact ⟨⟨hQ hrun (hagain []) hrest, hstart⟩, hagain⟩

/-! ## Sequencing -/

/-- Reading nothing is reading nothing again. -/
theorem pure (a : α) : Replays m size 0 Post (pure a) (pure a) (Post a) := by
  intro c b d hrun
  obtain ⟨rfl, rfl⟩ := pure_eq_some.mp hrun
  refine ⟨[], [], rfl, rfl, Nat.le_refl _, Nat.le_refl _, fun rest hrest _ => ?_⟩
  rw [Mode.pick_self]
  exact ⟨hrest, fun _ => rfl⟩

/-- What is never read is read the same again. -/
theorem failure : Replays m size least Post failure p' Pre := by
  intro c a d hrun
  cases hrun

/-- One parser after another. The second one is held to fewer tokens by what the first one reads
at least. -/
theorem bind_lt {f f' : α → Parser β} {Post : β → Follow} {Next : α → Follow}
    (hp : Replays m size least Mid p p' Pre)
    (hf : ∀ a, Replays m size' least' Post (f a) (f' a) (Next a))
    (hmid : ∀ a u u', Next a u u' → Mid a u u') (hsize : size ≤ size' + least) :
    Replays m size (least + least') Post (p >>= f) (p' >>= f') Pre := by
  intro c b d hrun
  obtain ⟨a, e, hrunp, hrunf⟩ := bind_eq_some.mp hrun
  obtain ⟨read, written, hread, hwritten, hlr, hlw, hreplay⟩ := hp c a e hrunp
  obtain ⟨read', written', hread', hwritten', hlr', hlw', hreplay'⟩ := hf a e b d hrunf
  refine ⟨read ++ read', written ++ written', by rw [hread, hread', List.append_assoc],
    by rw [hwritten', hwritten, List.reverse_append, List.append_assoc],
    by rw [List.length_append]; omega, by rw [List.length_append]; omega,
    fun rest hrest hbound => ?_⟩
  rw [Mode.pick_append, List.append_assoc] at hbound ⊢
  have hpicked : least ≤ (m.pick read written).length := by cases m <;> assumption
  have hlength := Token.length_le_sizeAll (m.pick read written)
  have hsplit := Token.sizeAll_append (m.pick read written) (m.pick read' written' ++ rest)
  obtain ⟨hnext, hagain'⟩ := hreplay' rest hrest (by omega)
  obtain ⟨hstart, hagain⟩ := hreplay _ (hmid a _ _ hnext) (by omega)
  refine ⟨hstart, fun z => ?_⟩
  rw [bind_of_eq_some (hagain z), hagain', List.reverse_append, List.append_assoc]

/-- Sequencing after a parser that may read nothing. -/
theorem bindEach {f f' : α → Parser β} {Post : β → Follow}
    (hp : Replays m size least Mid p p' Pre) (Next : α → Follow)
    (hf : ∀ a, Replays m size least' Post (f a) (f' a) (Next a))
    (hmid : ∀ a u u', Next a u u' → Mid a u u') :
    Replays m size least' Post (p >>= f) (p' >>= f') Pre :=
  (bind_lt hp hf hmid (by omega)).weaken (fun _ _ _ h => h) (fun _ _ h => h) (Nat.le_refl _)
    (by omega)

/-- One reading after the other, with what must stand between them. -/
theorem bind {f f' : α → Parser β} {Post : β → Follow} (hp : Replays m size least Mid p p' Pre)
    (Next : Follow) (hf : ∀ a, Replays m size least' Post (f a) (f' a) Next)
    (hmid : ∀ a u u', Next u u' → Mid a u u') :
    Replays m size least' Post (p >>= f) (p' >>= f') Pre :=
  hp.bindEach (fun _ => Next) hf hmid

/-- Sequencing that keeps what the first parser reads at least. -/
theorem keepEach {f f' : α → Parser β} {Post : β → Follow} (hp : Replays m size least Mid p p' Pre)
    (Next : α → Follow) (hf : ∀ a, Replays m size 0 Post (f a) (f' a) (Next a))
    (hmid : ∀ a u u', Next a u u' → Mid a u u') :
    Replays m size least Post (p >>= f) (p' >>= f') Pre :=
  (bind_lt hp hf hmid (by omega)).weaken (fun _ _ _ h => h) (fun _ _ h => h) (Nat.le_refl _)
    (by omega)

/-- A reading that may read nothing, and then another one. -/
theorem keep {f f' : α → Parser β} {Post : β → Follow} (hp : Replays m size least Mid p p' Pre)
    (Next : Follow) (hf : ∀ a, Replays m size 0 Post (f a) (f' a) Next)
    (hmid : ∀ a u u', Next u u' → Mid a u u') :
    Replays m size least Post (p >>= f) (p' >>= f') Pre :=
  hp.keepEach (fun _ => Next) hf hmid

/-- Sequencing after a parser that reads a token: what comes after it is shorter. -/
theorem head {f f' : α → Parser β} {Post : β → Follow} (hp : Replays m (size + 1) 1 Mid p p' Pre)
    (Next : Follow) (hf : ∀ a, Replays m size 0 Post (f a) (f' a) Next)
    (hmid : ∀ a u u', Next u u' → Mid a u u') :
    Replays m (size + 1) 1 Post (p >>= f) (p' >>= f') Pre :=
  (bind_lt hp hf hmid (Nat.le_refl _)).weaken (fun _ _ _ h => h) (fun _ _ h => h)
    (Nat.le_refl _) (by omega)

/-- Sequencing after a parser that does not ask what follows. -/
theorem seq {f f' : α → Parser β} {Post : β → Follow}
    (hp : Replays m size least (fun _ => Any) p p' Pre) (Next : Follow)
    (hf : ∀ a, Replays m size least' Post (f a) (f' a) Next) :
    Replays m size least' Post (p >>= f) (p' >>= f') Pre :=
  bind hp Next hf fun _ _ _ _ => trivial

/-- The first token of a construct: what comes after it is shorter. -/
theorem first {f f' : α → Parser β} {Post : β → Follow}
    (hp : Replays m (size + 1) 1 (fun _ => Any) p p' Pre) (Next : Follow)
    (hf : ∀ a, Replays m size 0 Post (f a) (f' a) Next) :
    Replays m (size + 1) 1 Post (p >>= f) (p' >>= f') Pre :=
  head hp Next hf fun _ _ _ _ => trivial

/-- What is read the same again can be wrapped. -/
theorem map {f : α → β} {Post : β → Follow}
    (hp : Replays m size least (fun a => Post (f a)) p p' Pre) :
    Replays m size least Post (p >>= fun a => Pure.pure (f a)) (p' >>= fun a => Pure.pure (f a))
      Pre :=
  (bind_lt hp (fun a => pure (f a)) (fun _ _ _ h => h) (Nat.le_add_right _ _)).weaken
    (fun _ _ _ h => h) (fun _ _ h => h) (Nat.le_refl _) (Nat.le_refl _)

theorem result {f : α → β} {Post : β → Follow} (hp : Replays m size least Mid p p' Pre)
    (hpost : ∀ a r r', Post (f a) r r' → Mid a r r') :
    Replays m size least Post (p >>= fun a => Pure.pure (f a)) (p' >>= fun a => Pure.pure (f a))
      Pre :=
  map (hp.after hpost)

/-- A result that is wrapped into another one, whatever it is. -/
theorem wrap {f : α → β} {P : Follow} (hp : Replays m size least (fun _ => P) p p' Pre) :
    Replays m size least (fun _ => P) (p >>= fun a => Pure.pure (f a))
      (p' >>= fun a => Pure.pure (f a)) Pre :=
  hp.result fun _ _ _ h => h

end Replays

/-! ## Questions -/

/-- A question that stays answered with no. -/
def Absent (question : Peek) : Follow :=
  fun u u' => question u = false → question u' = false

namespace Replays

variable {α β : Type} {m : Mode} {size size' least least' : Nat} {Post Mid : α → Follow}
  {Pre Pre' : Follow} {p p' : Parser α} {question : Peek}

/-- A question about what comes next is answered the same again. -/
theorem peek {f f' : Bool → Parser β} {Post : β → Follow} {Next : Bool → Follow}
    (hf : ∀ b, Replays m size least Post (f b) (f' b) (Next b))
    (hanswer : ∀ u u', Next (question u) u u' → question u' = question u) :
    Replays m size least Post (Source.peek question >>= f) (Source.peek question >>= f')
      fun u u' => Next (question u) u u' := by
  intro c b d hrun
  rw [peek_bind_apply] at hrun
  obtain ⟨read, written, hread, hwritten, hlr, hlw, hreplay⟩ := hf _ c b d hrun
  refine ⟨read, written, hread, hwritten, hlr, hlw, fun rest hrest hbound => ?_⟩
  obtain ⟨hnext, hagain⟩ := hreplay rest hrest hbound
  refine ⟨hnext, fun z => ?_⟩
  rw [peek_bind_apply, hanswer _ _ hnext, hagain]

/-- What is found out about the tokens that come next, if every case bears it out. -/
theorem look {γ : Type} {question : List Token → γ} {f f' : γ → Parser β} {Post : β → Follow}
    (hf : ∀ a, Replays m size least Post (f a) (f' a) fun u u' => question u = a → Pre u u')
    (hanswer : ∀ u u', Pre u u' → question u' = question u) :
    Replays m size least Post (get >>= fun cursor => f (question cursor.rest))
      (get >>= fun cursor => f' (question cursor.rest)) Pre := by
  intro c b d hrun
  rw [bind_of_eq_some get_apply] at hrun
  obtain ⟨read, written, hread, hwritten, hlr, hlw, hreplay⟩ := hf _ c b d hrun
  refine ⟨read, written, hread, hwritten, hlr, hlw, fun rest hrest hbound => ?_⟩
  obtain ⟨hpre, hagain⟩ := hreplay rest hrest hbound
  refine ⟨hpre rfl, fun z => ?_⟩
  rw [bind_of_eq_some get_apply, hanswer _ _ (hpre rfl), hagain]

/-- A question that leads answer. -/
theorem ask [hq : Stable question] {f f' : Bool → Parser β} {Post : β → Follow}
    (hlead : ∀ u u', Pre u u' → Lead u u') (hf : ∀ b, Replays m size least Post (f b) (f' b) Pre) :
    Replays m size least Post (Source.peek question >>= f) (Source.peek question >>= f') Pre :=
  (peek (hf : ∀ b, Replays m size least Post (f b) (f' b) ((fun _ => Pre) b))
    fun u u' h => (hq.eq_of_lead (hlead u u' h)).symm)

/-- A choice that both readings make alike. -/
theorem fixed {condition : Prop} [Decidable condition] {A A' B B' : Parser β} {Post : β → Follow}
    (hA : condition → Replays m size least Post A A' Pre)
    (hB : ¬condition → Replays m size least Post B B' Pre) :
    Replays m size least Post (if condition then A else B) (if condition then A' else B') Pre := by
  split
  next h => exact hA h
  next h => exact hB h

/-- A condition that both readings have. -/
theorem given {condition : Bool} {p p' : Parser β} {Post : β → Follow}
    (hp : condition = true → Replays m size least Post p p' Pre) :
    Replays m size least Post (Source.require condition >>= fun _ => p)
      (Source.require condition >>= fun _ => p') Pre := by
  cases condition with
  | false => exact failure
  | true => exact hp rfl

/-- A question whose answer does not matter. -/
theorem ignore {Post : β → Follow} {p p' : Parser β} (h : Replays m size least Post p p' Pre) :
    Replays m size least Post (Source.peek question >>= fun _ => p)
      (Source.peek question >>= fun _ => p') Pre :=
  h

/-- A question whose answer every case bears out. -/
theorem each {f f' : Bool → Parser β} {Post : β → Follow}
    (hf : ∀ b, Replays m size least Post (f b) (f' b) fun u u' => question u = b → Pre u u')
    (hanswer : ∀ u u', Pre u u' → question u' = question u) :
    Replays m size least Post (Source.peek question >>= f) (Source.peek question >>= f') Pre :=
  (peek hf fun u u' h => hanswer u u' (h rfl)).before fun _ _ h => h rfl

/-- A choice by a question, whose answer both branches bear out. -/
theorem choice {A A' B B' : Parser β} {Post : β → Follow}
    (hA : Replays m size least Post A A' fun u u' => question u = true → Pre u u')
    (hB : Replays m size least Post B B' fun u u' => question u = false → Pre u u')
    (hanswer : ∀ u u', Pre u u' → question u' = question u) :
    Replays m size least Post (Source.peek question >>= fun b => if b = true then A else B)
      (Source.peek question >>= fun b => if b = true then A' else B') Pre := by
  refine each (fun b => ?_) hanswer
  cases b
  · exact hB
  · exact hA

/-- A choice that the first reading makes. -/
theorem either {A B p' : Parser β} {Post : β → Follow}
    (hA : Replays m size least Post A p' fun u u' => question u = true → Pre u u')
    (hB : Replays m size least Post B p' fun u u' => question u = false → Pre u u') :
    Replays m size least Post (Source.peek question >>= fun b => if b = true then A else B) p' Pre := by
  intro c a d hrun
  rw [peek_bind_apply] at hrun
  cases hquestion : question c.rest with
  | true =>
      rw [hquestion] at hrun
      obtain ⟨read, written, hread, hwritten, hlr, hlw, hreplay⟩ := hA c a d hrun
      exact ⟨read, written, hread, hwritten, hlr, hlw, fun rest hrest hbound =>
        (hreplay rest hrest hbound).imp_left fun h => h hquestion⟩
  | false =>
      rw [hquestion] at hrun
      obtain ⟨read, written, hread, hwritten, hlr, hlw, hreplay⟩ := hB c a d hrun
      exact ⟨read, written, hread, hwritten, hlr, hlw, fun rest hrest hbound =>
        (hreplay rest hrest hbound).imp_left fun h => h hquestion⟩

/-- A choice that the second reading always makes in one way. -/
theorem passing {p A' B' : Parser β} {Post : β → Follow} (h : Replays m size least Post p B' Pre)
    (hno : ∀ u u', Pre u u' → question u' = false) :
    Replays m size least Post p (Source.peek question >>= fun b => if b = true then A' else B')
      Pre := by
  intro c a d hrun
  obtain ⟨read, written, hread, hwritten, hlr, hlw, hreplay⟩ := h c a d hrun
  refine ⟨read, written, hread, hwritten, hlr, hlw, fun rest hrest hbound => ?_⟩
  obtain ⟨hstart, hagain⟩ := hreplay rest hrest hbound
  refine ⟨hstart, fun z => ?_⟩
  rw [peek_bind_apply, hno _ _ hstart]
  exact hagain z

/-- A choice by a question that starts answer. -/
theorem branch {A A' B B' : Parser β} {Post : β → Follow}
    (hanswer : ∀ u u', Pre u u' → question u' = question u)
    (hA : Replays m size least Post A A' Pre) (hB : Replays m size least Post B B' Pre) :
    Replays m size least Post (Source.peek question >>= fun b => if b = true then A else B)
      (Source.peek question >>= fun b => if b = true then A' else B') Pre :=
  choice (hA.before fun _ _ h _ => h) (hB.before fun _ _ h _ => h) hanswer

/-- A choice by a question that leads answer. -/
theorem ite [hq : Stable question] {A A' B B' : Parser β} {Post : β → Follow}
    (hlead : ∀ u u', Pre u u' → Lead u u')
    (hA : Replays m size least Post A A' Pre) (hB : Replays m size least Post B B' Pre) :
    Replays m size least Post (Source.peek question >>= fun b => if b = true then A else B)
      (Source.peek question >>= fun b => if b = true then A' else B') Pre :=
  branch (fun u u' h => (hq.eq_of_lead (hlead u u' h)).symm) hA hB

/-- A choice by a question that leads answer, and of which the first branch needs the answer. -/
theorem iteYes [hq : Stable question] {A A' B B' : Parser β} {Post : β → Follow}
    (hlead : ∀ u u', Pre u u' → Lead u u')
    (hA : Replays m size least Post A A' fun u u' => question u = true → Pre u u')
    (hB : Replays m size least Post B B' Pre) :
    Replays m size least Post (Source.peek question >>= fun b => if b = true then A else B)
      (Source.peek question >>= fun b => if b = true then A' else B') Pre :=
  choice hA (hB.before fun _ _ h _ => h) fun u u' h => (hq.eq_of_lead (hlead u u' h)).symm

end Replays

end ActionUnits.Source
