import ActionUnits.Proofs.Text.Word
import ActionUnits.Text.Snake
import Mathlib.Data.List.Chain

/-! # Snake case of plain names

On letters, digits and underscores, snake case can be said character by
character: each is written in lower case, and an underscore is added where a word
ends. So the names that stay as they are have no capitals and no digit next to a
letter, and a name in snake case is one of them.
-/

namespace ActionUnits.Text

/-! ## Plain characters -/

/-- A letter, a digit or an underscore. -/
def IsNameChar (c : Char) : Prop :=
  c.isAlphanum = true ∨ c = '_'

instance : DecidablePred IsNameChar := fun _ => inferInstanceAs (Decidable (_ ∨ _))

theorem IsNameChar.lt {c : Char} (h : IsNameChar c) : c.toNat < 0x80 := by
  rcases h with h | rfl
  · simp only [Char.isAlphanum, isAlpha_eq, Char.isDigit, Bool.or_eq_true, isUpper_iff,
      isLower_iff, Bool.and_eq_true, decide_eq_true_eq, ge_iff_le, UInt32.le_iff_toNat_le,
      Char.toNat_val] at h
    have hlast : 'Z'.toNat = 90 ∧ 'z'.toNat = 122 ∧ '9'.toNat = 57 := ⟨rfl, rfl, rfl⟩
    omega
  · decide

/-- What is checked code by code holds of all plain characters. -/
@[elab_as_elim]
theorem IsNameChar.byCode {motive : Char → Prop} {c : Char} (h : IsNameChar c)
    (hcodes : ∀ n < 0x80, IsNameChar (Char.ofNat n) → motive (Char.ofNat n)) : motive c := by
  have hcode := hcodes c.toNat h.lt
  rw [Char.ofNat_toNat] at hcode
  exact hcode h

namespace IsNameChar

variable {c : Char}

/-- Lower case keeps what kind of character it is, but for capitals. -/
theorem lowered (h : IsNameChar c) :
    (c.toLower.isLower = true ∨ c.toLower.isDigit = true ∨ c.toLower = '_') ∧
      (c.isAlpha = true ∨ c = '_' → c.toLower.isLower = true ∨ c.toLower = '_') ∧
      c.toLower.isUpper = false ∧ c.toLower.isAlpha = c.isAlpha ∧
      c.toLower.isDigit = c.isDigit ∧ (c.toLower = c ↔ c.isUpper = false) :=
  h.byCode (by decide +kernel)

/-- In lower case, a character of a name is a lower-case letter, a digit or an underscore. -/
theorem toLower (h : IsNameChar c) : c.toLower.isLower = true ∨ c.toLower.isDigit = true ∨
    c.toLower = '_' :=
  h.lowered.1

theorem toLower_of_start (h : IsNameChar c) :
    c.isAlpha = true ∨ c = '_' → c.toLower.isLower = true ∨ c.toLower = '_' :=
  h.lowered.2.1

theorem isUpper_toLower (h : IsNameChar c) : c.toLower.isUpper = false :=
  h.lowered.2.2.1

theorem isAlpha_toLower (h : IsNameChar c) : c.toLower.isAlpha = c.isAlpha :=
  h.lowered.2.2.2.1

theorem isDigit_toLower (h : IsNameChar c) : c.toLower.isDigit = c.isDigit :=
  h.lowered.2.2.2.2.1

/-- Only capitals change in lower case. -/
theorem toLower_eq_self_iff (h : IsNameChar c) : c.toLower = c ↔ c.isUpper = false :=
  h.lowered.2.2.2.2.2

/-- Alone, a plain character is a cluster of its own kind. -/
theorem clustered (h : IsNameChar c) :
    Cluster.isUpper [c] = c.isUpper ∧ Cluster.isLower [c] = c.isLower ∧
      Cluster.isSeparator [c] = (c == '_') :=
  h.byCode (by decide +kernel)

theorem cluster_isUpper (h : IsNameChar c) : Cluster.isUpper [c] = c.isUpper :=
  h.clustered.1

theorem cluster_isLower (h : IsNameChar c) : Cluster.isLower [c] = c.isLower :=
  h.clustered.2.1

theorem cluster_isSeparator (h : IsNameChar c) : Cluster.isSeparator [c] = (c == '_') :=
  h.clustered.2.2

theorem breakClass_eq (h : IsNameChar c) : breakClass c = .other :=
  h.byCode (by decide +kernel)

/-- A plain character joins no plain character. -/
theorem joins_eq_false {e : ClusterEnd} (hlast : e.last = .other) (h : IsNameChar c) :
    e.joins c = false := by
  have hlt := h.lt
  have hcode : ¬ 0x80 ≤ c.toNat := by omega
  simp [ClusterEnd.joins, hlast, h.breakClass_eq, isConjunctConsonant, hcode]

end IsNameChar

variable {cs : List Char}

theorem clustersAfter_eq_map {e : ClusterEnd} (hlast : e.last = .other)
    (h : ∀ c ∈ cs, IsNameChar c) : clustersAfter e cs = [] :: cs.map ([·]) := by
  induction cs generalizing e with
  | nil => rfl
  | cons c cs ih =>
      obtain ⟨hc, hcs⟩ := List.forall_mem_cons.mp h
      have hsingle : (ClusterEnd.single c).last = .other := hc.breakClass_eq
      rw [clustersAfter, hc.joins_eq_false hlast, ih hsingle hcs]
      rfl

/-- The characters of a name are clusters by themselves. -/
theorem clusters_eq_map (h : ∀ c ∈ cs, IsNameChar c) : clusters cs = cs.map ([·]) := by
  cases cs with
  | nil => rfl
  | cons c cs =>
      obtain ⟨hc, hcs⟩ := List.forall_mem_cons.mp h
      have hsingle : (ClusterEnd.single c).last = .other := hc.breakClass_eq
      rw [clusters, clustersAfter_eq_map hsingle hcs]
      rfl

/-- The characters of a name are put into lower case one by one. -/
theorem lower_eq_map (h : ∀ c ∈ cs, IsNameChar c) : lower cs = cs.map Char.toLower := by
  have hafter : ∀ before, lowerAfter before cs = cs.map Char.toLower := by
    induction cs with
    | nil => exact fun before => rfl
    | cons c cs ih =>
        intro before
        obtain ⟨hc, hcs⟩ := List.forall_mem_cons.mp h
        have hsigma : (c == 'Σ') = false := by
          rw [beq_eq_false_iff_ne]
          rintro rfl
          exact absurd hc (by decide)
        rw [lowerAfter, ih hcs]
        simp [hsigma, lowerChar, hc.lt]
  exact hafter []

/-! ## Character by character -/

/-- A letter beside a digit, in either order. -/
def IsMixedPair (a b : Char) : Prop :=
  a.isAlpha = true ∧ b.isDigit = true ∨ a.isDigit = true ∧ b.isAlpha = true

/-- A word ends between two characters, given the character after them: before a capital, but inside
an acronym only before its last one, and between letters and digits. -/
def IsWordEnd (a b : Char) (next : Option Char) : Prop :=
  a.isLower = true ∧ b.isUpper = true ∨
    a.isUpper = true ∧ b.isUpper = true ∧ next.any Char.isLower = true ∨ IsMixedPair a b

instance (a b : Char) : Decidable (IsMixedPair a b) :=
  inferInstanceAs (Decidable (_ ∨ _))

instance (a b : Char) (next : Option Char) : Decidable (IsWordEnd a b next) :=
  inferInstanceAs (Decidable (_ ∨ _))

/-- A name in lower case, with an underscore wherever a word ends. -/
def underscored : List Char → List Char
  | [] => []
  | [a] => [a.toLower]
  | a :: b :: rest =>
    if IsWordEnd a b rest.head? then a.toLower :: '_' :: underscored (b :: rest)
    else a.toLower :: underscored (b :: rest)

theorem IsWordEnd.ne_underscore {a b : Char} {next : Option Char} (h : IsWordEnd a b next) :
    a ≠ '_' ∧ b ≠ '_' := by
  constructor
  · rintro rfl
    simp [IsWordEnd, IsMixedPair] at h
  · rintro rfl
    simp [IsWordEnd, IsMixedPair] at h

/-- The test for the end of a word answers by the classes of three characters. -/
theorem endsWord_eq_true_iff {a b : Char} {next : Option Char} (ha : IsNameChar a)
    (hb : IsNameChar b) (hnext : ∀ c, next = some c → IsNameChar c) :
    endsWord [a] [b] (next.map ([·])) = true ↔ IsWordEnd a b next := by
  have hany : (next.map ([·])).any Cluster.isLower = next.any Char.isLower := by
    cases next with
    | none => rfl
    | some c => exact (hnext c rfl).cluster_isLower
  have hdigit : ∀ c : Char, Cluster.isDigit [c] = c.isDigit := fun c => Bool.and_true _
  simp only [endsWord, ha.cluster_isLower, ha.cluster_isUpper, hb.cluster_isLower,
    hb.cluster_isUpper, hany, hdigit, IsWordEnd, IsMixedPair, isAlpha_eq, Bool.or_eq_true,
    Bool.and_eq_true]
  grind

/-! ## Words joined by underscores -/

/-- Words in lower case with underscores between them. -/
def joinWords (words : List (List Char)) : List Char :=
  ['_'].intercalate (words.map lower)

/-- Words are joined with underscores. -/
theorem joinWords_cons {word : List Char} {words : List (List Char)} (h : words ≠ []) :
    joinWords (word :: words) = lower word ++ '_' :: joinWords words := by
  have hmap : words.map lower ≠ [] := by simpa using h
  rw [joinWords, List.map_cons, List.intercalate_cons_of_ne_nil hmap, joinWords]
  simp

theorem wordsOf_ne_nil (ks : List Cluster) : wordsOf ks ≠ [] := by
  induction ks with
  | nil => simp [wordsOf]
  | cons a ks ih =>
      cases ks with
      | nil =>
          rw [wordsOf]
          split <;> simp
      | cons b rest =>
          rw [wordsOf]
          split
          · simp
          · split
            · simp
            · cases wordsOf (b :: rest) <;> simp [pushCluster]

theorem forall_pushCluster {P : Char → Prop} {k : Cluster} {words : List (List Char)}
    (hk : ∀ c ∈ k, P c) (hwords : ∀ word ∈ words, ∀ c ∈ word, P c) :
    ∀ word ∈ pushCluster k words, ∀ c ∈ word, P c := by
  cases words with
  | nil => simpa [pushCluster] using hk
  | cons first words =>
      rw [List.forall_mem_cons] at hwords
      rw [pushCluster, List.forall_mem_cons, List.forall_mem_append]
      exact ⟨⟨hk, hwords.1⟩, hwords.2⟩

/-- Words are made of the characters of the name. -/
theorem forall_wordsOf {P : Char → Prop} {ks : List Cluster} (h : ∀ k ∈ ks, ∀ c ∈ k, P c) :
    ∀ word ∈ wordsOf ks, ∀ c ∈ word, P c := by
  fun_induction wordsOf ks with
  | case1 => simp
  | case2 a hseparator => simp
  | case3 a hseparator => simpa using h
  | case4 a b rest hseparator ih =>
      rw [List.forall_mem_cons] at h ⊢
      exact ⟨by simp, ih h.2⟩
  | case5 a b rest hseparator hends ih =>
      rw [List.forall_mem_cons] at h ⊢
      exact ⟨h.1, ih h.2⟩
  | case6 a b rest hseparator hends ih =>
      rw [List.forall_mem_cons] at h
      exact forall_pushCluster h.1 (ih h.2)

/-- A character in front of the first word comes first. -/
theorem joinWords_pushCluster {c : Char} {words : List (List Char)} (hc : IsNameChar c)
    (hwords : ∀ word ∈ words, ∀ d ∈ word, IsNameChar d) (hne : words ≠ []) :
    joinWords (pushCluster [c] words) = c.toLower :: joinWords words := by
  cases words with
  | nil => exact absurd rfl hne
  | cons first words =>
      have hfirst := hwords first List.mem_cons_self
      have hlower : lower (c :: first) = c.toLower :: lower first := by
        rw [lower_eq_map hfirst, lower_eq_map (List.forall_mem_cons.mpr ⟨hc, hfirst⟩)]
        rfl
      cases words with
      | nil => simp [pushCluster, joinWords, hlower]
      | cons second words =>
          have hmore : second :: words ≠ [] := List.cons_ne_nil _ _
          rw [pushCluster, List.singleton_append, joinWords_cons hmore, joinWords_cons hmore,
            hlower]
          rfl

/-- The snake case of a name is its lower case with underscores at the ends of its words. -/
theorem snake_eq_underscored (h : ∀ c ∈ cs, IsNameChar c) : snake cs = underscored cs := by
  rw [snake, clusters_eq_map h]
  change joinWords (wordsOf (cs.map ([·]))) = underscored cs
  induction cs with
  | nil => rfl
  | cons a cs ih =>
      obtain ⟨ha, hcs⟩ := List.forall_mem_cons.mp h
      have hlower : lower [a] = [a.toLower] := lower_eq_map (by simpa using ha)
      cases cs with
      | nil =>
          rw [List.map_singleton, wordsOf, ha.cluster_isSeparator, underscored]
          split
          next hseparator =>
            rw [eq_of_beq hseparator]
            rfl
          next => simp [joinWords, hlower]
      | cons b rest =>
          obtain ⟨hb, hrest⟩ := List.forall_mem_cons.mp hcs
          -- A word ends here or not by this character and the next two, and the induction gives
          -- what comes after.
          have hends := @endsWord_eq_true_iff a b rest.head? ha hb
            (fun c hc => hrest c (List.mem_of_head? hc))
          have hne := wordsOf_ne_nil ((b :: rest).map ([·]))
          have hwords : ∀ word ∈ wordsOf ((b :: rest).map ([·])), ∀ c ∈ word, IsNameChar c := by
            apply forall_wordsOf
            simpa using hcs
          simp only [List.map_cons] at ih hne hwords ⊢
          rw [wordsOf, ha.cluster_isSeparator, List.head?_map, underscored]
          by_cases hword : IsWordEnd a b rest.head?
          · have hseparator : (a == '_') = false := beq_false_of_ne hword.ne_underscore.1
            rw [if_pos hword, hseparator, hends.mpr hword, ← ih hcs]
            simp only [Bool.false_eq_true, if_false, if_true]
            rw [joinWords_cons hne, hlower]
            rfl
          · rw [if_neg hword, Bool.eq_false_iff.mpr (mt hends.mp hword), ← ih hcs]
            simp only [Bool.false_eq_true, if_false]
            split
            next hseparator =>
              rw [eq_of_beq hseparator, joinWords_cons hne]
              rfl
            next => exact joinWords_pushCluster ha hwords hne

/-! ## Names in snake case -/

/-- No capitals, and no digit next to a letter. -/
def IsSnake (cs : List Char) : Prop :=
  (∀ c ∈ cs, c.isUpper = false) ∧ cs.IsChain fun a b => ¬ IsMixedPair a b

instance (cs : List Char) : Decidable (IsSnake cs) :=
  @instDecidableAnd _ _ (List.decidableBAll _ cs) inferInstance

/-- A name is in snake case exactly if it has no capital and no letter next to a digit. -/
theorem isSnake_cons {a : Char} :
    IsSnake (a :: cs) ↔
      a.isUpper = false ∧ (∀ b ∈ cs.head?, ¬ IsMixedPair a b) ∧ IsSnake cs := by
  rw [IsSnake, List.forall_mem_cons, List.isChain_cons, IsSnake]
  tauto

/-- Without capitals a word ends only between a letter and a digit. -/
theorem isWordEnd_iff {a b : Char} {next : Option Char} (h : b.isUpper = false) :
    IsWordEnd a b next ↔ IsMixedPair a b := by
  simp [IsWordEnd, h]

/-- An added underscore stands before a character that is none, so it shows. -/
theorem underscored_eq_self_iff (h : ∀ c ∈ cs, IsNameChar c) :
    underscored cs = cs ↔ IsSnake cs := by
  induction cs with
  | nil => simp [underscored, IsSnake]
  | cons a cs ih =>
      obtain ⟨ha, hcs⟩ := List.forall_mem_cons.mp h
      cases cs with
      | nil => simp [underscored, IsSnake, ha.toLower_eq_self_iff]
      | cons b rest =>
          rw [isSnake_cons, ← ih hcs, ← ha.toLower_eq_self_iff, underscored]
          by_cases hword : IsWordEnd a b rest.head?
          · rw [if_pos hword, List.cons.injEq, List.cons.injEq]
            constructor
            · rintro ⟨-, hb, -⟩
              exact absurd hb.symm hword.ne_underscore.2
            · rintro ⟨-, hpair, hrest⟩
              have hb := ((ih hcs).mp hrest).1 b List.mem_cons_self
              exact absurd ((isWordEnd_iff hb).mp hword) (hpair b rfl)
          · have hpair : ¬ IsMixedPair a b := fun hpair => hword (.inr (.inr hpair))
            rw [if_neg hword, List.cons.injEq]
            simp [hpair]

/-- Snake case has only lower-case letters, digits and underscores. -/
theorem forall_underscored (h : ∀ c ∈ cs, IsNameChar c) :
    ∀ c ∈ underscored cs, c.isLower = true ∨ c.isDigit = true ∨ c = '_' := by
  induction cs with
  | nil => simp [underscored]
  | cons a cs ih =>
      obtain ⟨ha, hcs⟩ := List.forall_mem_cons.mp h
      cases cs with
      | nil => simpa [underscored] using ha.toLower
      | cons b rest =>
          rw [underscored]
          split
          · exact List.forall_mem_cons.mpr ⟨ha.toLower,
              List.forall_mem_cons.mpr ⟨.inr (.inr rfl), ih hcs⟩⟩
          · exact List.forall_mem_cons.mpr ⟨ha.toLower, ih hcs⟩

theorem head?_underscored (cs : List Char) :
    (underscored cs).head? = cs.head?.map Char.toLower := by
  fun_induction underscored cs <;> rfl

/-- The snake case of a name is in snake case. -/
theorem isSnake_underscored (h : ∀ c ∈ cs, IsNameChar c) : IsSnake (underscored cs) := by
  induction cs with
  | nil => simp [underscored, IsSnake]
  | cons a cs ih =>
      obtain ⟨ha, hcs⟩ := List.forall_mem_cons.mp h
      cases cs with
      | nil => exact ⟨List.forall_mem_singleton.mpr ha.isUpper_toLower, .singleton _⟩
      | cons b rest =>
          have hb := hcs b List.mem_cons_self
          rw [underscored]
          split
          next =>
            rw [isSnake_cons, isSnake_cons]
            exact ⟨ha.isUpper_toLower, by simp [IsMixedPair], rfl, by simp [IsMixedPair], ih hcs⟩
          next hword =>
            rw [isSnake_cons, head?_underscored]
            refine ⟨ha.isUpper_toLower, ?_, ih hcs⟩
            rintro _ ⟨⟩
            rw [IsMixedPair, ha.isAlpha_toLower, ha.isDigit_toLower, hb.isAlpha_toLower,
              hb.isDigit_toLower]
            exact fun hpair => hword (.inr (.inr hpair))

/-! ## Plain names -/

/-- A plain identifier: letters, digits and underscores, and no digit in front. -/
structure IsPlainName (cs : List Char) : Prop where
  start : ∃ c, cs.head? = some c ∧ (c.isAlpha = true ∨ c = '_')
  chars : ∀ c ∈ cs, IsNameChar c

/-- A plain identifier without capitals. -/
structure IsLowerName (cs : List Char) : Prop where
  start : ∃ c, cs.head? = some c ∧ (c.isLower = true ∨ c = '_')
  chars : ∀ c ∈ cs, c.isLower = true ∨ c.isDigit = true ∨ c = '_'

theorem IsLowerName.isPlainName (h : IsLowerName cs) : IsPlainName cs := by
  obtain ⟨c, hhead, hc⟩ := h.start
  refine ⟨⟨c, hhead, ?_⟩, fun d hd => ?_⟩
  · rcases hc with hc | hc
    · exact .inl (by rw [isAlpha_eq, hc, Bool.or_true])
    · exact .inr hc
  · rcases h.chars d hd with hd | hd | hd
    · exact .inl (by rw [Char.isAlphanum, isAlpha_eq, hd, Bool.or_true, Bool.true_or])
    · exact .inl (by rw [Char.isAlphanum, hd, Bool.or_true])
    · exact .inr hd

/-- Snake case writes the first character in lower case, and puts nothing in front of it. -/
theorem IsPlainName.snake (h : IsPlainName cs) : IsLowerName (snake cs) := by
  obtain ⟨c, hhead, hc⟩ := h.start
  have hplain := h.chars c (List.mem_of_head? hhead)
  rw [snake_eq_underscored h.chars]
  refine ⟨⟨c.toLower, ?_, hplain.toLower_of_start hc⟩, forall_underscored h.chars⟩
  rw [head?_underscored, hhead, Option.map_some]

/-- The names that snake case leaves as they are. -/
theorem IsPlainName.snake_eq_self_iff (h : IsPlainName cs) : Text.snake cs = cs ↔ IsSnake cs := by
  rw [snake_eq_underscored h.chars, underscored_eq_self_iff h.chars]

/-- Snake case is reached in one step. -/
theorem IsPlainName.isSnake_snake (h : IsPlainName cs) : IsSnake (Text.snake cs) := by
  rw [snake_eq_underscored h.chars]
  exact isSnake_underscored h.chars

end ActionUnits.Text
