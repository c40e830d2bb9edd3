import ActionUnits.Load
import ActionUnits.Proofs.Files.Containment

/-! # What patterns stand for, and patterns below a folder

Elements of a pattern stand for texts character by character. How an element is read depends on the
text before it only in so far as that may end a component. An escaped text is therefore read as
elements that stand for its characters, whatever follows, and what follows is read as if it stood
alone: a pattern below a folder is the components of the folder, each standing for itself, and the
components of the pattern.
-/

namespace ActionUnits

open Text

namespace Wildcard

/-! ## Texts -/

/-- The texts that elements stand for: one character each, or any characters at all. -/
inductive Denotes : List Wildcard → List Char → Prop
  | nil : Denotes [] []
  | one {wildcard : Wildcard} {wildcards : List Wildcard} {c : Char} {cs : List Char}
      (accepts : wildcard.accepts c = true) (rest : Denotes wildcards cs) :
      Denotes (wildcard :: wildcards) (c :: cs)
  | sequence {wildcards : List Wildcard} {cs : List Char} (skipped : List Char)
      (rest : Denotes wildcards cs) : Denotes (.sequence :: wildcards) (skipped ++ cs)

theorem mem_suffixes {cs suffix : List Char} : suffix ∈ suffixes cs ↔ suffix <:+ cs := by
  induction cs with
  | nil => simp [suffixes]
  | cons c cs ih => rw [suffixes, List.mem_cons, ih, List.suffix_cons_iff]

/-- An asterisk passes any number of characters. -/
theorem denotes_sequence_iff {wildcards : List Wildcard} {cs : List Char} :
    Denotes (.sequence :: wildcards) cs ↔ ∃ suffix, suffix <:+ cs ∧ Denotes wildcards suffix := by
  constructor
  · rintro (_ | ⟨haccepts, -⟩ | ⟨skipped, hrest⟩)
    · cases haccepts
    · exact ⟨_, List.suffix_append _ _, hrest⟩
  · rintro ⟨suffix, ⟨skipped, rfl⟩, hrest⟩
    exact .sequence skipped hrest

/-- Every other wildcard passes one character. -/
theorem denotes_cons_iff {wildcard : Wildcard} (h : wildcard ≠ .sequence)
    {wildcards : List Wildcard} {cs : List Char} :
    Denotes (wildcard :: wildcards) cs ↔
      ∃ c rest, cs = c :: rest ∧ wildcard.accepts c = true ∧ Denotes wildcards rest := by
  constructor
  · rintro (_ | ⟨haccepts, hrest⟩ | ⟨skipped, hrest⟩)
    · exact ⟨_, _, rfl, haccepts, hrest⟩
    · exact absurd rfl h
  · rintro ⟨c, rest, rfl, haccepts, hrest⟩
    exact .one haccepts hrest

/-- Matching finds out whether elements stand for a text. -/
theorem matchAll_iff {wildcards : List Wildcard} {cs : List Char} :
    matchAll wildcards cs = true ↔ Denotes wildcards cs := by
  induction wildcards generalizing cs with
  | nil =>
      rw [matchAll, List.isEmpty_iff]
      constructor
      · rintro rfl
        exact .nil
      · rintro ⟨⟩
        rfl
  | cons wildcard wildcards ih =>
      by_cases hsequence : wildcard = .sequence
      · subst hsequence
        simp only [matchAll, List.any_eq_true, mem_suffixes, ih, denotes_sequence_iff]
      · rw [denotes_cons_iff hsequence]
        cases cs with
        | nil =>
            have hmatch : matchAll (wildcard :: wildcards) [] = false := by
              cases wildcard <;> first | rfl | exact absurd rfl hsequence
            simp [hmatch]
        | cons c cs =>
            have hmatch : matchAll (wildcard :: wildcards) (c :: cs) =
                (wildcard.accepts c && matchAll wildcards cs) := by
              cases wildcard <;> first | rfl | exact absurd rfl hsequence
            rw [hmatch, Bool.and_eq_true, ih]
            constructor
            · rintro ⟨haccepts, hrest⟩
              exact ⟨c, cs, rfl, haccepts, hrest⟩
            · rintro ⟨_, _, heq, haccepts, hrest⟩
              cases heq
              exact ⟨haccepts, hrest⟩

/-! ## Reading -/

/-- What is left after brackets is an end of what was there. -/
theorem suffix_bracketed? {cs : List Char} {r : List Char × List Char}
    (h : bracketed? cs = some r) : r.2 <:+ cs := by
  cases cs with
  | nil => cases h
  | cons first cs =>
      rw [bracketed?] at h
      cases hdrop : cs.drop (cs.takeWhile (· != ']')).length with
      | nil => simp only [hdrop] at h; cases h
      | cons close rest =>
          simp only [hdrop] at h
          cases h
          have hsuffix : close :: rest <:+ cs := hdrop ▸ List.drop_suffix _ _
          exact ((List.suffix_cons _ _).trans hsuffix).trans (List.suffix_cons _ _)

theorem suffix_brackets? {cs : List Char} {r : Wildcard × List Char} (h : brackets? cs = some r) :
    r.2 <:+ cs := by
  unfold brackets? at h
  split at h
  next cs =>
    obtain ⟨inside, hinside, rfl⟩ := Option.map_eq_some_iff.mp h
    exact (suffix_bracketed? hinside).trans (List.suffix_cons _ _)
  next =>
    obtain ⟨inside, hinside, rfl⟩ := Option.map_eq_some_iff.mp h
    exact suffix_bracketed? hinside

theorem suffix_asterisks {position : Nat} {before : Option Char} {cs : List Char}
    {r : Wildcard × List Char} (h : asterisks position before ('*' :: cs) = .ok r) :
    r.2 <:+ cs := by
  have hrest : ('*' :: cs).drop (('*' :: cs).takeWhile (· == '*')).length <:+ cs := by
    rw [List.takeWhile_cons_of_pos (by rfl), List.length_cons, List.drop_succ_cons]
    exact List.drop_suffix _ _
  simp only [asterisks] at h
  generalize ('*' :: cs).drop (('*' :: cs).takeWhile (· == '*')).length = rest at h hrest
  split at h
  · cases h
    exact hrest
  split at h
  · cases h
  split at h
  · cases h
  split at h
  · cases h
    exact List.nil_suffix
  next =>
    cases h
    exact (List.suffix_cons _ _).trans hrest
  · cases h

/-- An element has at least one character, and what follows it is as it was. -/
theorem suffix_read {position : Nat} {before : Option Char} {c : Char} {cs : List Char}
    {r : Wildcard × List Char} (h : read position before c cs = .ok r) : r.2 <:+ cs := by
  unfold read at h
  split at h
  · cases h
    exact List.suffix_refl _
  split at h
  next hstar =>
    rw [eq_of_beq hstar] at h
    exact suffix_asterisks h
  split at h
  · split at h
    next r hr =>
      cases h
      exact suffix_brackets? hr
    · cases h
  · cases h
    exact List.suffix_refl _

/-- Faults aside, reading an element depends on what is before it only in so far as that may end a
component. -/
theorem toOption_read {before other : Option Char}
    (h : startsComponent before = startsComponent other) (position place : Nat) (c : Char)
    (cs : List Char) :
    (read position before c cs).toOption = (read place other c cs).toOption := by
  simp only [read, asterisks, h]
  repeat' split
  all_goals rfl

/-- The characters that an element was read from. -/
def used (c : Char) (cs rest : List Char) : List Char :=
  (c :: cs).take (cs.length + 1 - rest.length)

theorem used_ne_nil (c : Char) {cs rest : List Char} (h : rest.length ≤ cs.length) :
    used c cs rest ≠ [] := by
  rw [used, Ne, List.take_eq_nil_iff]
  simp
  omega

/-- The elements of a text that follows a character or nothing, if it has no fault. -/
def elements? (before : Option Char) (cs : List Char) : Option (List Wildcard) :=
  (readAllTo cs.length before.toList 0 cs).toOption

theorem readAllTo_nil (fuel : Nat) (done : List Char) (position : Nat) :
    readAllTo fuel done position [] = .ok [] := by
  cases fuel <;> rfl

/-- Wildcards are read one after the other. -/
theorem toOption_readAllTo_succ (fuel : Nat) (done : List Char) (position : Nat) (c : Char)
    (cs : List Char) :
    (readAllTo (fuel + 1) done position (c :: cs)).toOption =
      (read position done.head? c cs).toOption.bind fun r =>
        (readAllTo fuel ((used c cs r.2).reverse ++ done) (position + (used c cs r.2).length)
          r.2).toOption.map (r.1 :: ·) := by
  rw [readAllTo]
  cases read position done.head? c cs with
  | error fault => rfl
  | ok r =>
      change (readAllTo fuel ((used c cs r.2).reverse ++ done)
        (position + (used c cs r.2).length) r.2 >>= fun wildcards =>
          pure (r.1 :: wildcards)).toOption = _
      cases hrest : readAllTo fuel ((used c cs r.2).reverse ++ done)
        (position + (used c cs r.2).length) r.2 <;>
        simp [Except.toOption, bind, Except.bind, hrest, pure, Except.pure]

/-- Neither the room nor the position matters, and of what is before only whether it may end a
component. -/
theorem toOption_readAllTo {fuel room : Nat} {done before : List Char} {cs : List Char}
    (hfuel : cs.length ≤ fuel) (hroom : cs.length ≤ room)
    (h : startsComponent done.head? = startsComponent before.head?) (position place : Nat) :
    (readAllTo fuel done position cs).toOption = (readAllTo room before place cs).toOption := by
  induction fuel generalizing room done before cs position place with
  | zero =>
      rw [List.length_eq_zero_iff.mp (Nat.le_zero.mp hfuel), readAllTo_nil, readAllTo_nil]
  | succ fuel ih =>
      cases cs with
      | nil => rw [readAllTo_nil, readAllTo_nil]
      | cons c cs =>
          obtain ⟨room, rfl⟩ := Nat.exists_eq_succ_of_ne_zero (Nat.pos_iff_ne_zero.mp
            (Nat.lt_of_lt_of_le (Nat.succ_pos _) hroom))
          rw [toOption_readAllTo_succ, toOption_readAllTo_succ,
            toOption_read h position place c cs]
          cases hread : read place before.head? c cs with
          | error fault => rfl
          | ok r =>
              have hle := (suffix_read hread).length_le
              have hne := used_ne_nil c hle
              simp only [List.length_cons] at hfuel hroom
              simp only [Except.toOption, Option.bind_some]
              congr 1
              refine ih (by omega) (by omega) ?_ _ _
              rw [List.head?_append, List.head?_append, List.head?_reverse,
                List.getLast?_eq_some_getLast hne, Option.some_or, Option.some_or]

theorem brackets?_ne_char {cs rest : List Char} {c : Char} :
    brackets? cs ≠ some (.char c, rest) := by
  intro h
  unfold brackets? at h
  split at h <;>
    (obtain ⟨inside, -, hinside⟩ := Option.map_eq_some_iff.mp h; cases hinside)

theorem asterisks_ne_char {position : Nat} {before : Option Char} {cs rest : List Char} {c : Char} :
    asterisks position before cs ≠ .ok (.char c, rest) := by
  intro h
  simp only [asterisks] at h
  repeat' split at h
  all_goals cases h

/-- A wildcard that is a single character is the one that was read. -/
theorem char_of_read {position : Nat} {before : Option Char} {first c : Char}
    {cs rest : List Char} (h : read position before first cs = .ok (.char c, rest)) :
    c = first := by
  unfold read at h
  split at h
  · cases h
  split at h
  · exact absurd h asterisks_ne_char
  split at h
  · split at h
    next r hr =>
      cases h
      exact absurd hr brackets?_ne_char
    · cases h
  · cases h
    rfl

/-- An element that stands for one character only was read from it. -/
theorem char_mem_of_readAllTo {fuel position : Nat} {done cs : List Char}
    {wildcards : List Wildcard} (h : readAllTo fuel done position cs = .ok wildcards) {c : Char}
    (hc : .char c ∈ wildcards) : c ∈ cs := by
  induction fuel generalizing done position cs wildcards with
  | zero => cases cs <;> (cases h; cases hc)
  | succ fuel ih =>
      cases cs with
      | nil =>
          cases h
          cases hc
      | cons first cs =>
          rw [readAllTo] at h
          cases hread : read position done.head? first cs with
          | error fault =>
              rw [hread] at h
              cases h
          | ok r =>
              rw [hread] at h
              change (readAllTo fuel ((used first cs r.2).reverse ++ done)
                (position + (used first cs r.2).length) r.2 >>= fun others =>
                  pure (r.1 :: others)) = _ at h
              cases hrest : readAllTo fuel ((used first cs r.2).reverse ++ done)
                (position + (used first cs r.2).length) r.2 with
              | error fault =>
                  rw [hrest] at h
                  cases h
              | ok others =>
                  rw [hrest] at h
                  cases h
                  rcases List.mem_cons.mp hc with hhead | hother
                  · obtain ⟨wildcard, rest⟩ := r
                    obtain rfl : .char c = wildcard := hhead
                    exact char_of_read hread ▸ List.mem_cons_self
                  · exact List.mem_cons_of_mem _ ((suffix_read hread).subset (ih hrest hother))

/-- Reading wildcards agrees with splitting them into elements. -/
theorem toOption_readAll (cs : List Char) : (readAll cs).toOption = elements? none cs :=
  rfl

/-- Only whether something stands in front matters to two asterisks. -/
theorem elements?_congr {before other : Option Char}
    (h : startsComponent before = startsComponent other) (cs : List Char) :
    elements? before cs = elements? other cs := by
  refine toOption_readAllTo (Nat.le_refl _) (Nat.le_refl _) ?_ _ _
  cases before <;> cases other <;> exact h

/-- The first element of a text is read by itself, the others follow its last character. -/
theorem elements?_cons {before : Option Char} {c : Char} {cs : List Char}
    {r : Wildcard × List Char} (h : read 0 before c cs = .ok r) :
    elements? before (c :: cs) = (elements? (used c cs r.2).getLast? r.2).map (r.1 :: ·) := by
  have hle := (suffix_read h).length_le
  have hhead : before.toList.head? = before := by cases before <;> rfl
  rw [elements?, List.length_cons, toOption_readAllTo_succ, hhead, h]
  simp only [Except.toOption, Option.bind_some]
  congr 1
  refine toOption_readAllTo hle (Nat.le_refl _) ?_ _ _
  rw [List.head?_append, List.head?_reverse,
    List.getLast?_eq_some_getLast (used_ne_nil c hle), Option.some_or]
  rfl

/-! ## Escaped texts -/

/-- Whether a character has a meaning in patterns. -/
def isSpecial (c : Char) : Bool :=
  c == '?' || c == '*' || c == '[' || c == ']'

/-- How a character is escaped. -/
def escapeChar (c : Char) : List Char :=
  if isSpecial c then ['[', c, ']'] else [c]

/-- The element that an escaped character is read as. -/
def escaped (c : Char) : Wildcard :=
  if isSpecial c then .within [(c, c)] else .char c

/-- An escaped character stands for itself only. -/
theorem accepts_escaped_iff {c d : Char} : (escaped c).accepts d = true ↔ d = c := by
  unfold escaped
  split
  · simp only [accepts, inRanges, List.any_cons, List.any_nil, Bool.or_false, Bool.and_eq_true,
      decide_eq_true_eq]
    exact ⟨fun h => Char.le_antisymm h.2 h.1, fun h => h ▸ ⟨Char.le_refl _, Char.le_refl _⟩⟩
  · simp [accepts]

/-- Escaped characters stand for themselves. -/
theorem denotes_escaped_iff {cs text : List Char} :
    Denotes (cs.map escaped) text ↔ text = cs := by
  induction cs generalizing text with
  | nil =>
      constructor
      · rintro ⟨⟩
        rfl
      · rintro rfl
        exact .nil
  | cons c cs ih =>
      have hsequence : escaped c ≠ .sequence := by unfold escaped; split <;> simp
      rw [List.map_cons, denotes_cons_iff hsequence]
      constructor
      · rintro ⟨d, rest, rfl, haccepts, hrest⟩
        rw [accepts_escaped_iff.mp haccepts, ih.mp hrest]
      · rintro rfl
        exact ⟨c, cs, rfl, accepts_escaped_iff.mpr rfl, ih.mpr rfl⟩

/-- The brackets around a character are closed before the text goes on. -/
theorem elements?_escapeChar (before : Option Char) (c : Char) (rest : List Char) :
    elements? before (escapeChar c ++ rest) =
      (elements? (escapeChar c).getLast? rest).map (escaped c :: ·) := by
  unfold escapeChar escaped
  split
  next hspecial =>
    have hread : read 0 before '[' (c :: ']' :: rest) = .ok (.within [(c, c)], rest) := by
      have hbang : c ≠ '!' := by rintro rfl; cases hspecial
      have hbrackets : brackets? (c :: ']' :: rest) = some (.within [(c, c)], rest) := by
        unfold brackets?
        split
        next heq => exact absurd (List.cons.inj heq).1 hbang
        next => simp [bracketed?, ranges]
      simp only [read, hbrackets]
      rfl
    have hused : used '[' (c :: ']' :: rest) rest = ['[', c, ']'] := by
      rw [used, List.length_cons, List.length_cons,
        show rest.length + 1 + 1 + 1 - rest.length = 3 by omega]
      rfl
    rw [List.cons_append, List.cons_append, List.cons_append, List.nil_append,
      elements?_cons hread, hused]
  next hspecial =>
    simp only [isSpecial, Bool.not_eq_true, Bool.or_eq_false_iff] at hspecial
    obtain ⟨⟨⟨hquestion, hstar⟩, hopen⟩, -⟩ := hspecial
    have hread : read 0 before c rest = .ok (.char c, rest) := by
      simp only [read, hquestion, hstar, hopen, Bool.false_eq_true, ↓reduceIte]
    have hused : used c rest rest = [c] := by
      rw [used, Nat.add_sub_cancel_left]
      rfl
    rw [List.singleton_append, elements?_cons hread, hused]

/-- What follows an escaped text is read as if it stood alone, but for the character before it. -/
theorem elements?_flatMap_escapeChar (before : Option Char) (cs rest : List Char) :
    elements? before (cs.flatMap escapeChar ++ rest) =
      (elements? ((cs.flatMap escapeChar).getLast?.or before) rest).map (cs.map escaped ++ ·) := by
  induction cs generalizing before with
  | nil => simp
  | cons c cs ih =>
      rw [List.flatMap_cons, List.append_assoc, elements?_escapeChar, ih, List.getLast?_append,
        Option.map_map]
      have hlast : ∃ last, (escapeChar c).getLast? = some last := by
        unfold escapeChar
        split <;> exact ⟨_, rfl⟩
      obtain ⟨last, hlast⟩ := hlast
      rw [hlast, Option.or_assoc, Option.some_or]
      rfl

/-- An escaped text is read as elements that stand for its characters. -/
theorem elements?_escaped (cs : List Char) :
    elements? none (cs.flatMap escapeChar) = some (cs.map escaped) := by
  have h := elements?_flatMap_escapeChar none cs []
  rw [List.append_nil] at h
  rw [h]
  simp [elements?, readAllTo_nil, Except.toOption]

/-- An escaped text that is closed by a slash leaves the reading of what follows as it is. -/
theorem elements?_below (cs rest : List Char) :
    elements? none (cs.flatMap escapeChar ++ '/' :: rest) =
      (elements? none rest).map (cs.map escaped ++ .char '/' :: ·) := by
  have hslash : cs.flatMap escapeChar ++ '/' :: rest =
      (cs ++ ['/']).flatMap escapeChar ++ rest := by
    simp [List.flatMap_append, escapeChar, isSpecial]
  have hlast : ((cs ++ ['/']).flatMap escapeChar).getLast? = some '/' := by
    simp [List.flatMap_append, escapeChar, isSpecial]
  have hstart : elements? (some '/') rest = elements? none rest := by
    refine elements?_congr ?_ rest
    rfl
  rw [hslash, elements?_flatMap_escapeChar, hlast, Option.some_or, hstart]
  simp [escaped, isSpecial]

end Wildcard

/-! ## Names -/

namespace NamePattern

open Wildcard

/-- The names that a component stands for. -/
def Names : NamePattern → String → Prop
  | .literal text, name => name = text
  | .wild wildcards, name => Denotes wildcards name.toList
  | .recursive, _ => False

/-- The matcher answers whether a pattern names a name. -/
theorem matchName_iff {pattern : NamePattern} {name : String} :
    pattern.matchName name = true ↔ pattern.Names name := by
  cases pattern with
  | literal text => rw [matchName, beq_iff_eq, Names, eq_comm]
  | wild wildcards => exact matchAll_iff
  | recursive => exact ⟨nofun, nofun⟩

/-- The component that stands for a part of a path as it is. -/
def exactly (part : List Char) : NamePattern :=
  ofWildcards (part.map escaped)

/-- Escaped characters are plain again, unless one of them had to be put into brackets. -/
theorem mapM_char?_escaped (cs : List Char) :
    (cs.map escaped).mapM Wildcard.char? = if cs.any isSpecial then none else some cs := by
  induction cs with
  | nil => rfl
  | cons c cs ih =>
      rw [List.map_cons, List.mapM_cons, ih, List.any_cons]
      by_cases hspecial : isSpecial c = true
      · simp [escaped, hspecial, Wildcard.char?]
      · simp only [escaped, hspecial, Bool.false_eq_true, ↓reduceIte, Wildcard.char?, Bool.false_or]
        split <;> rfl

/-- A part with characters that have a meaning in patterns is read as one with wildcards. -/
theorem exactly_eq (part : List Char) :
    exactly part =
      if part.any isSpecial then .wild (part.map escaped) else .literal (String.ofList part) := by
  have hrecursive : (part.map escaped == [.recursive]) = false := by
    refine beq_false_of_ne fun h => ?_
    obtain ⟨c, -, hc⟩ := List.mem_map.mp (h ▸ List.mem_singleton_self Wildcard.recursive)
    unfold escaped at hc
    split at hc <;> cases hc
  rw [exactly, ofWildcards, hrecursive, mapM_char?_escaped, if_neg Bool.false_ne_true]
  cases part.any isSpecial <;> rfl

theorem exactly_ne_recursive (part : List Char) : exactly part ≠ .recursive := by
  rw [exactly_eq]
  split <;> simp

end NamePattern

end ActionUnits
