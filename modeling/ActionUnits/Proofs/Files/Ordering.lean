import ActionUnits.Files.Path
import Mathlib.Data.List.Basic

/-! # Sorting paths

Paths are sorted by their components. Different paths can have the same components, as `a/b` and
`a/./b` do, and sorting leaves such paths in the order in which they were. Lists in which they have
the same order are therefore the same once they are sorted.
-/

namespace ActionUnits

/-! ## The order of paths -/

instance : Std.TransCmp Component.compare :=
  inferInstanceAs (Std.TransCmp (compareLex (compareOn Component.kindRank)
    (compareOn Component.name)))

instance : Std.LawfulEqCmp Component.compare where
  eq_of_compare {a b} h := by
    have hlex : compareLex (compareOn Component.kindRank) (compareOn Component.name) a b = .eq := h
    obtain ⟨hkind, htext⟩ := compareLex_eq_eq.mp hlex
    have hrank : a.kindRank = b.kindRank := Std.LawfulEqCmp.eq_of_compare hkind
    have hname : a.name = b.name := Std.LawfulEqCmp.eq_of_compare htext
    cases a <;> cases b <;> first | rfl | exact congrArg Component.normal hname | cases hrank

namespace FilePath

/-- Lists of components are compared in lexicographic order. -/
theorem compareLists_eq (as bs : List Component) :
    compare.compareLists as bs = List.compareLex Component.compare as bs := by
  induction as generalizing bs with
  | nil => cases bs <;> rfl
  | cons a as ih =>
      cases bs with
      | nil => rfl
      | cons b bs =>
          rw [compare.compareLists, ih, List.compareLex_cons_cons]

/-- The order that paths are sorted by. -/
def precedes (a b : FilePath) : Bool :=
  (a.compare b).isLE

theorem precedes_eq (a b : FilePath) :
    precedes a b = (List.compareLex Component.compare a.components b.components).isLE := by
  rw [precedes, compare, compareLists_eq]

/-- The order of paths is transitive. -/
theorem precedes_trans (a b c : FilePath) (hab : precedes a b = true) (hbc : precedes b c = true) :
    precedes a c = true := by
  rw [precedes_eq] at *
  exact Std.TransCmp.isLE_trans hab hbc

/-- Any two paths can be compared. -/
theorem precedes_total (a b : FilePath) : (precedes a b || precedes b a) = true := by
  have hswap : List.compareLex Component.compare b.components a.components =
      (List.compareLex Component.compare a.components b.components).swap :=
    Std.OrientedCmp.eq_swap
  rw [precedes_eq, precedes_eq, hswap]
  cases List.compareLex Component.compare a.components b.components <;> rfl

theorem precedes_of_components_eq {a b : FilePath} (h : a.components = b.components) :
    precedes a b = true := by
  have hself : List.compareLex Component.compare b.components b.components = .eq :=
    Std.ReflCmp.compare_self
  rw [precedes_eq, h, hself]
  rfl

/-- Only paths with the same components precede each other. -/
theorem components_eq_of_precedes {a b : FilePath} (hab : precedes a b = true)
    (hba : precedes b a = true) : a.components = b.components := by
  rw [precedes_eq] at hab hba
  exact Std.LawfulEqCmp.eq_of_compare (Std.OrientedCmp.isLE_antisymm hab hba)

/-- Sorting sorts. -/
theorem pairwise_mergeSort (paths : List FilePath) :
    (paths.mergeSort precedes).Pairwise fun a b => precedes a b = true :=
  List.pairwise_mergeSort precedes_trans precedes_total paths

/-! ## Paths with the same components -/

/-- Paths with the same components stand in the same order in two lists. -/
def SameClasses (paths others : List FilePath) : Prop :=
  ∀ components : List Component,
    paths.filter (·.components = components) = others.filter (·.components = components)

namespace SameClasses

variable {paths others more : List FilePath}

theorem refl (paths : List FilePath) : SameClasses paths paths :=
  fun _ => rfl

theorem symm (h : SameClasses paths others) : SameClasses others paths :=
  fun components => (h components).symm

theorem trans (h : SameClasses paths others) (hmore : SameClasses others more) :
    SameClasses paths more :=
  fun components => (h components).trans (hmore components)

theorem append {paths' others' : List FilePath} (h : SameClasses paths others)
    (h' : SameClasses paths' others') : SameClasses (paths ++ paths') (others ++ others') := by
  intro components
  rw [List.filter_append, List.filter_append, h, h']

theorem filter (h : SameClasses paths others) (test : FilePath → Bool) :
    SameClasses (paths.filter test) (others.filter test) := by
  intro components
  rw [List.filter_comm, h, List.filter_comm]

theorem mem_iff (h : SameClasses paths others) {path : FilePath} :
    path ∈ paths ↔ path ∈ others := by
  have hmem : ∀ list : List FilePath, path ∈ list ↔
      path ∈ list.filter (·.components = path.components) := by
    intro list
    simp
  rw [hmem paths, hmem others, h]

/-- What is found under each key may be replaced by the same in another order. -/
theorem flatMap_congr {α : Type} {keys : List α} {f g : α → List FilePath}
    (h : ∀ key ∈ keys, SameClasses (f key) (g key)) :
    SameClasses (keys.flatMap f) (keys.flatMap g) := by
  induction keys with
  | nil => exact .refl _
  | cons key keys ih =>
      exact (h key List.mem_cons_self).append (ih fun k hk => h k (List.mem_cons_of_mem _ hk))

/-- The order of blocks does not matter where different blocks have different components. -/
theorem flatMap_perm {α : Type} {keys keys' : List α} {f : α → List FilePath}
    (hperm : keys.Perm keys')
    (hdisjoint : ∀ key ∈ keys, ∀ other ∈ keys, key ≠ other → ∀ a ∈ f key, ∀ b ∈ f other,
      a.components ≠ b.components) : SameClasses (keys.flatMap f) (keys'.flatMap f) := by
  induction hperm with
  | nil => exact .refl _
  | cons key _ ih =>
      exact (refl _).append (ih fun k hk o ho =>
        hdisjoint k (List.mem_cons_of_mem _ hk) o (List.mem_cons_of_mem _ ho))
  | @swap a b keys =>
      rw [List.flatMap_cons, List.flatMap_cons, List.flatMap_cons, List.flatMap_cons,
        ← List.append_assoc, ← List.append_assoc]
      refine append (fun components => ?_) (refl _)
      rw [List.filter_append, List.filter_append]
      rcases eq_or_ne a b with rfl | hne
      · rfl
      · -- Only one of the two blocks has paths with these components.
        have hnil : (f a).filter (·.components = components) = [] ∨
            (f b).filter (·.components = components) = [] := by
          by_contra hboth
          rw [not_or] at hboth
          obtain ⟨p, hp⟩ := List.exists_mem_of_ne_nil _ hboth.1
          obtain ⟨q, hq⟩ := List.exists_mem_of_ne_nil _ hboth.2
          rw [List.mem_filter, decide_eq_true_eq] at hp hq
          exact hdisjoint a (by simp) b (by simp) hne p hp.1 q hq.1 (hp.2.trans hq.2.symm)
        rcases hnil with hnil | hnil <;> rw [hnil] <;> simp
  | trans hfirst _ ihfirst ihsecond =>
      refine (ihfirst hdisjoint).trans (ihsecond fun k hk o ho => ?_)
      exact hdisjoint k (hfirst.mem_iff.mpr hk) o (hfirst.mem_iff.mpr ho)

/-- Sorting leaves paths with the same components in their order. -/
theorem mergeSort (paths : List FilePath) :
    SameClasses (paths.mergeSort precedes) paths := by
  intro components
  have hsorted : (paths.filter (·.components = components)).Pairwise
      fun a b => precedes a b = true := by
    refine List.pairwise_of_forall_mem_list fun a ha b hb => ?_
    rw [List.mem_filter, decide_eq_true_eq] at ha hb
    exact precedes_of_components_eq (ha.2.trans hb.2.symm)
  have hsub := List.sublist_mergeSort precedes_trans precedes_total hsorted List.filter_sublist
  have hfilter := hsub.filter (·.components = components)
  rw [List.filter_filter] at hfilter
  simp only [Bool.and_self] at hfilter
  refine (hfilter.eq_of_length ?_).symm
  exact ((List.mergeSort_perm paths precedes).filter _).length_eq.symm

/-- Two sorted lists that agree up to the order of different components are equal. -/
theorem eq_of_sorted (h : SameClasses paths others)
    (hpaths : paths.Pairwise fun a b => precedes a b = true)
    (hothers : others.Pairwise fun a b => precedes a b = true) : paths = others := by
  induction paths generalizing others with
  | nil =>
      cases others with
      | nil => rfl
      | cons b others => cases h.mem_iff.mpr List.mem_cons_self
  | cons a paths ih =>
      cases others with
      | nil => cases h.mem_iff.mp List.mem_cons_self
      | cons b others =>
          have hle : ∀ {c : FilePath} {list : List FilePath} {d : FilePath},
              (c :: list).Pairwise (fun a b => precedes a b = true) → d ∈ c :: list →
                precedes c d = true := by
            intro c list d hsorted hd
            rcases List.mem_cons.mp hd with rfl | hd
            · exact precedes_of_components_eq rfl
            · exact List.rel_of_pairwise_cons hsorted hd
          have hsame : a.components = b.components :=
            components_eq_of_precedes (hle hpaths (h.mem_iff.mpr List.mem_cons_self))
              (hle hothers (h.mem_iff.mp List.mem_cons_self))
          have hclass := h b.components
          simp only [List.filter_cons, hsame, decide_true, ↓reduceIte, List.cons.injEq] at hclass
          obtain ⟨rfl, -⟩ := hclass
          refine congrArg _ (ih (fun components => ?_) hpaths.of_cons hothers.of_cons)
          have hclass := h components
          simp only [List.filter_cons] at hclass
          split at hclass
          · exact (List.cons.inj hclass).2
          · exact hclass

/-- Lists that agree on the order of paths with the same components are sorted alike. -/
theorem mergeSort_eq (h : SameClasses paths others) :
    paths.mergeSort precedes = others.mergeSort precedes := by
  exact (((mergeSort paths).trans h).trans (mergeSort others).symm).eq_of_sorted
    (pairwise_mergeSort _) (pairwise_mergeSort _)

end SameClasses

end FilePath

end ActionUnits
