import Mathlib.Data.List.Nodup

/-! # First occurrences

The elements of a list that have not occurred before, said by position, and the
laws of erasing duplicates that follow: erasing twice is erasing once, and
duplicates may be erased from a beginning before the rest is added.
-/

namespace ActionUnits

variable {α : Type} [DecidableEq α]

/-- The elements that occur nowhere before their place, in order. -/
def firstOccurrences (xs : List α) : List α :=
  (xs.zipIdx.filter fun entry => entry.1 ∉ xs.take entry.2).map Prod.fst

/-- Positions counted from the end of a beginning that is there already. -/
theorem firstOccurrences_after (before xs : List α) :
    ((xs.zipIdx before.length).filter fun entry => entry.1 ∉ (before ++ xs).take entry.2).map
        Prod.fst = (xs.filter (· ∉ before)).eraseDups := by
  induction xs generalizing before with
  | nil => simp
  | cons x xs ih =>
      have hrest := ih (before ++ [x])
      rw [List.length_append, List.length_singleton, List.append_assoc, List.singleton_append]
        at hrest
      have htake : (before ++ x :: xs).take before.length = before := by simp
      rw [List.zipIdx_cons, List.filter_cons, List.filter_cons, htake]
      by_cases hx : x ∈ before
      · simp only [hx, not_true_eq_false, decide_false, Bool.false_eq_true, ↓reduceIte, hrest]
        congr 1
        refine List.filter_congr fun y _ => ?_
        by_cases hy : y = x
        · simp [hy, hx]
        · simp [hy]
      · simp only [hx, not_false_eq_true, decide_true, ↓reduceIte, List.map_cons, hrest,
          List.eraseDups_cons, List.filter_filter]
        congr 2
        refine List.filter_congr fun y _ => ?_
        by_cases hy : y = x <;> simp [hy]

/-- Erasing duplicates keeps the first occurrences. -/
theorem eraseDups_eq_firstOccurrences (xs : List α) : xs.eraseDups = firstOccurrences xs := by
  have h := firstOccurrences_after [] xs
  simpa [firstOccurrences] using h.symm

theorem nodup_eraseDups (xs : List α) : xs.eraseDups.Nodup := by
  cases xs with
  | nil => simp
  | cons x xs =>
      rw [List.eraseDups_cons, List.nodup_cons]
      exact ⟨by simp, nodup_eraseDups _⟩
termination_by xs.length
decreasing_by exact Nat.lt_succ_of_le (List.length_filter_le _ _)

theorem eraseDups_of_nodup {xs : List α} (h : xs.Nodup) : xs.eraseDups = xs := by
  induction xs with
  | nil => simp
  | cons x xs ih =>
      obtain ⟨hx, hxs⟩ := List.nodup_cons.mp h
      have hfilter : xs.filter (fun y => !y == x) = xs := by
        refine List.filter_eq_self.mpr fun y hy => ?_
        have hne : y ≠ x := fun heq => hx (heq ▸ hy)
        simpa using hne
      rw [List.eraseDups_cons, hfilter, ih hxs]

theorem eraseDups_eraseDups_append (xs ys : List α) :
    (xs.eraseDups ++ ys).eraseDups = (xs ++ ys).eraseDups := by
  have hremove : ys.removeAll xs.eraseDups = ys.removeAll xs := by
    refine List.filter_congr fun y _ => ?_
    simp
  rw [List.eraseDups_append, List.eraseDups_append, eraseDups_of_nodup (nodup_eraseDups xs),
    hremove]

/-- A list whose elements have all occurred before adds nothing. -/
theorem eraseDups_append_of_subset {xs ys : List α} (h : ys ⊆ xs) :
    (xs ++ ys).eraseDups = xs.eraseDups := by
  have hremove : ys.removeAll xs = [] := by
    refine List.filter_eq_nil_iff.mpr fun y hy => ?_
    simpa using h hy
  rw [List.eraseDups_append, hremove, List.eraseDups_nil, List.append_nil]

/-- It does not matter whether duplicates are erased before elements are picked or after. -/
theorem eraseDups_filter (p : α → Bool) (xs : List α) :
    (xs.filter p).eraseDups = xs.eraseDups.filter p := by
  cases xs with
  | nil => simp
  | cons x xs =>
      have ih := eraseDups_filter p (xs.filter fun y => !y == x)
      rw [List.eraseDups_cons, List.filter_cons, List.filter_cons, ← ih]
      cases hx : p x with
      | true =>
          rw [if_pos rfl, if_pos rfl, List.eraseDups_cons, List.filter_filter,
            List.filter_filter]
          simp only [Bool.and_comm]
      | false =>
          rw [if_neg (by simp), if_neg (by simp), List.filter_filter]
          congr 1
          refine List.filter_congr fun y _ => ?_
          by_cases hy : y = x <;> simp [hy, hx]
termination_by xs.length
decreasing_by exact Nat.lt_succ_of_le (List.length_filter_le _ _)

theorem eraseDups_append_eraseDups (xs ys : List α) :
    (xs ++ ys.eraseDups).eraseDups = (xs ++ ys).eraseDups := by
  rw [List.eraseDups_append, List.eraseDups_append, List.removeAll, List.removeAll,
    eraseDups_filter, eraseDups_of_nodup (nodup_eraseDups ys), eraseDups_filter]

/-- Duplicates that are erased before elements are mapped would be erased after it. -/
theorem eraseDups_map_eraseDups {β : Type} [DecidableEq β] (f : α → β) (xs : List α) :
    (xs.eraseDups.map f).eraseDups = (xs.map f).eraseDups := by
  cases xs with
  | nil => simp
  | cons x xs =>
      have ih := eraseDups_map_eraseDups f (xs.filter fun y => !y == x)
      rw [List.eraseDups_cons, List.map_cons, List.map_cons, List.eraseDups_cons,
        List.eraseDups_cons, eraseDups_filter, ih, ← eraseDups_filter, List.filter_map,
        List.filter_map, List.filter_filter]
      congr 3
      refine List.filter_congr fun y _ => ?_
      by_cases hy : y = x <;> simp [hy]
termination_by xs.length
decreasing_by exact Nat.lt_succ_of_le (List.length_filter_le _ _)

omit [DecidableEq α] in
theorem pairwise_zipIdx_lt (xs : List α) : xs.zipIdx.Pairwise fun a b => a.2 < b.2 := by
  have h : (xs.zipIdx.map Prod.snd).Pairwise (· < ·) := by
    rw [List.zipIdx_map_snd]
    exact List.pairwise_lt_range'
  exact List.pairwise_map.mp h

/-- Where an element has not occurred before, it occurs first. -/
theorem idxOf_of_notMem_take {xs : List α} {x : α} {i : Nat} (hget : xs[i]? = some x)
    (hbefore : x ∉ xs.take i) : xs.idxOf x = i := by
  obtain ⟨hi, rfl⟩ := List.getElem?_eq_some_iff.mp hget
  have hmem : xs[i] ∈ xs.take (i + 1) := List.mem_take_iff_getElem.mpr ⟨i, by omega, rfl⟩
  rw [List.mem_take_iff_idxOf_lt (List.getElem_mem hi)] at hbefore hmem
  omega

/-- First occurrences stand in the order of their places. -/
theorem pairwise_firstOccurrences (xs : List α) :
    (firstOccurrences xs).Pairwise fun a b => xs.idxOf a < xs.idxOf b := by
  have hplace : ∀ entry ∈ xs.zipIdx.filter fun entry => entry.1 ∉ xs.take entry.2,
      xs.idxOf entry.1 = entry.2 := by
    intro entry hentry
    obtain ⟨hmem, hbefore⟩ := List.mem_filter.mp hentry
    exact idxOf_of_notMem_take (List.mk_mem_zipIdx_iff_getElem?.mp hmem) (by simpa using hbefore)
  rw [firstOccurrences, List.pairwise_map]
  refine ((pairwise_zipIdx_lt xs).filter _).imp_of_mem fun {a b} ha hb hlt => ?_
  rwa [hplace a ha, hplace b hb]

omit [DecidableEq α] in
/-- Among different elements, a key occurs twice if two of them have it. -/
theorem one_lt_count_map_iff {β : Type} [DecidableEq β] {f : α → β} {xs : List α} (h : xs.Nodup)
    (b : β) :
    1 < (xs.map f).count b ↔ ∃ x ∈ xs, ∃ y ∈ xs, f x = b ∧ f y = b ∧ x ≠ y := by
  induction xs with
  | nil => simp
  | cons x xs ih =>
      obtain ⟨hx, hxs⟩ := List.nodup_cons.mp h
      have hpos : 0 < (xs.map f).count b ↔ ∃ y ∈ xs, f y = b := by
        rw [List.count_pos_iff, List.mem_map]
      rw [List.map_cons, List.count_cons]
      by_cases hb : f x = b
      · have hlt : 1 < (xs.map f).count b + 1 ↔ 0 < (xs.map f).count b := by omega
        rw [if_pos (by simpa using hb), hlt, hpos]
        constructor
        · rintro ⟨y, hy, hyb⟩
          exact ⟨x, List.mem_cons_self, y, List.mem_cons_of_mem _ hy, hb, hyb,
            fun heq => hx (heq ▸ hy)⟩
        · rintro ⟨y, hy, z, hz, hyb, hzb, hne⟩
          rcases List.mem_cons.mp hy with rfl | hy
          · rcases List.mem_cons.mp hz with rfl | hz
            · exact (hne rfl).elim
            · exact ⟨z, hz, hzb⟩
          · exact ⟨y, hy, hyb⟩
      · rw [if_neg (by simpa using hb), Nat.add_zero, ih hxs]
        have hmem : ∀ y ∈ x :: xs, f y = b → y ∈ xs := by
          intro y hy hyb
          rcases List.mem_cons.mp hy with rfl | hy
          · exact (hb hyb).elim
          · exact hy
        constructor
        · rintro ⟨y, hy, z, hz, hrest⟩
          exact ⟨y, List.mem_cons_of_mem _ hy, z, List.mem_cons_of_mem _ hz, hrest⟩
        · rintro ⟨y, hy, z, hz, hyb, hzb, hne⟩
          exact ⟨y, hmem y hy hyb, z, hmem z hz hzb, hyb, hzb, hne⟩

/-- Where one key tells two elements apart, so does every key that follows it. -/
theorem nodup_map_of_imp {α β γ : Type} {l : List α} {f : α → β} {g : α → γ}
    (h : ∀ a ∈ l, ∀ b ∈ l, g a = g b → f a = f b) (hf : (l.map f).Nodup) : (l.map g).Nodup := by
  rw [List.Nodup, List.pairwise_map] at hf ⊢
  exact hf.imp_of_mem fun ha hb hne heq => hne (h _ ha _ hb heq)

end ActionUnits
