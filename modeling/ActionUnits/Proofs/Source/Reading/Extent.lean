import ActionUnits.Token.Basic
import Mathlib.Tactic.Common

/-! # How far a reading gets

Parsers differ in what they leave behind them. A finished reading does not end in
an attribute, as an attribute stands in front of something. A paused one may, but
not inside of an attribute. Both notions survive sequencing, so they are known of
a rule of the grammar from its parts.
-/

namespace ActionUnits.Source

/-! ## Attributes at the end -/

/-- What stands in front of the brackets of an attribute. -/
inductive AttributeMark : List Token → Prop
  | outer (joint : Bool) : AttributeMark [.punct '#' joint]
  | inner (joint joint' : Bool) : AttributeMark [.punct '#' joint, .punct '!' joint']

/-- Tokens that do not end in the middle of an attribute. -/
def Paused (read : List Token) : Prop :=
  ∀ mark, AttributeMark mark → ¬ mark <:+ read

/-- Tokens that do not end in an attribute or in the middle of one. -/
def Finished (read : List Token) : Prop :=
  Paused read ∧ ∀ mark delimiter body, AttributeMark mark →
    ¬ mark ++ [.group delimiter body] <:+ read

/-- A mark that begins two texts together begins the first of them. -/
theorem AttributeMark.of_append {first second : List Token} (h : AttributeMark (first ++ second))
    (hfirst : first ≠ []) : AttributeMark first := by
  match first with
  | [] => exact absurd rfl hfirst
  | [token] =>
      cases h with
      | outer joint => exact .outer joint
      | inner joint joint' => exact .outer joint
  | [token, token'] =>
      cases h with
      | inner joint joint' => exact .inner joint joint'
  | _ :: _ :: _ :: _ => cases h

/-- The end of a sequence is at the end of its second part, or it reaches into the first one. -/
theorem suffix_append_cases {α : Type} {tail first second : List α} (h : tail <:+ first ++ second) :
    tail <:+ second ∨ ∃ start, start ≠ [] ∧ tail = start ++ second ∧ start <:+ first := by
  by_cases hlength : tail.length ≤ second.length
  · exact .inl (List.suffix_of_suffix_length_le h (List.suffix_append _ _) hlength)
  · obtain ⟨start, rfl⟩ : second <:+ tail :=
      List.suffix_of_suffix_length_le (List.suffix_append _ _) h (by omega)
    refine .inr ⟨start, ?_, rfl, ?_⟩
    · rintro rfl
      simp at hlength
    · obtain ⟨before, hbefore⟩ := h
      rw [← List.append_assoc] at hbefore
      exact ⟨before, List.append_cancel_right hbefore⟩

namespace Paused

variable {first second : List Token}

/-- Two texts that pause at their ends pause together. -/
theorem append (hfirst : Paused first) (hsecond : Paused second) : Paused (first ++ second) := by
  intro mark hmark hsuffix
  obtain hin | ⟨start, hne, rfl, hstart⟩ := suffix_append_cases hsuffix
  · exact hsecond mark hmark hin
  · exact hfirst start (hmark.of_append hne) hstart

/-- Something finished after a pause is finished. -/
theorem append_finished (hfirst : Paused first) (hsecond : Finished second) (hne : second ≠ []) :
    Finished (first ++ second) := by
  refine ⟨hfirst.append hsecond.1, fun mark delimiter body hmark hsuffix => ?_⟩
  obtain hin | ⟨start, hstart, heq, hin⟩ := suffix_append_cases hsuffix
  · exact hsecond.2 mark delimiter body hmark hin
  · obtain rfl | ⟨others, last, rfl⟩ := second.eq_nil_or_concat
    · exact hne rfl
    · rw [List.concat_eq_append, ← List.append_assoc] at heq
      obtain ⟨rfl, -⟩ := List.append_inj' heq rfl
      exact hfirst start (hmark.of_append hstart) hin

end Paused

/-- Two finished texts are a finished text together. -/
theorem Finished.append {first second : List Token} (hfirst : Finished first)
    (hsecond : Finished second) : Finished (first ++ second) := by
  by_cases hne : second = []
  · rw [hne, List.append_nil]
    exact hfirst
  · exact hfirst.1.append_finished hsecond hne

/-- Tokens without the sign of an attribute are finished. -/
theorem Finished.of_notMem {read : List Token} (h : ∀ joint, .punct '#' joint ∉ read) :
    Finished read := by
  have hmark : ∀ {mark rest}, AttributeMark mark → ¬ mark ++ rest <:+ read := by
    intro mark rest hmark hsuffix
    cases hmark with
    | outer joint => exact h joint (hsuffix.subset (by simp))
    | inner joint joint' => exact h joint (hsuffix.subset (by simp))
  refine ⟨fun mark hstart hsuffix => ?_, fun mark delimiter body hstart => hmark hstart⟩
  rw [← List.append_nil mark] at hsuffix
  exact hmark hstart hsuffix

theorem Finished.nil : Finished [] :=
  .of_notMem (by simp)

/-- A token that is no sign of an attribute is finished. -/
theorem Finished.single {token : Token} (h : ∀ joint, .punct '#' joint ≠ token) :
    Finished [token] :=
  .of_notMem fun joint hmem => h joint (List.mem_singleton.mp hmem)

/-- After a group is a place to pause. -/
theorem Paused.concat_group (read : List Token) (delimiter : Delimiter) (body : List Token) :
    Paused (read ++ [.group delimiter body]) := by
  rintro other hother ⟨before, heq⟩
  have hlast := congrArg List.getLast? heq
  cases hother with
  | outer joint => simp at hlast
  | inner joint joint' => simp at hlast

/-- After a name no attribute is open. -/
theorem Finished.concat_ident (read : List Token) (name : Ident) :
    Finished (read ++ [.ident name]) := by
  refine ⟨?_, ?_⟩
  · rintro mark hmark ⟨before, heq⟩
    have hlast := congrArg List.getLast? heq
    cases hmark with
    | outer joint => simp at hlast
    | inner joint joint' => simp at hlast
  · rintro mark delimiter body - ⟨before, heq⟩
    have hlast := congrArg List.getLast? heq
    simp [← List.append_assoc] at hlast

/-! ## Extents -/

/-- How far a parser gets. -/
inductive Extent where
  /-- It reads something, and finishes it. -/
  | firm
  /-- What it reads is finished, if anything. -/
  | loose
  /-- It may stop after an attribute. -/
  | lead

def Extent.Holds : Extent → List Token → Prop
  | .firm, read => Finished read ∧ read ≠ []
  | .loose, read => Finished read
  | .lead, read => Paused read

end ActionUnits.Source
