import ActionUnits.Proofs.Files.Writing

/-! # Updating the files of generated units

Every unit is compared with the file that is there, in order, and is written
unless that file is up to date. What is compared ignores blanks around a
content while what is written is exact, so a file that is up to date holds the
content of its unit up to blanks only. A unit that is up to date stays so as
long as its own file is left alone, whatever folders and other files are made
after it; so one pass over units with different files is enough, and the next
one has nothing to do.
-/

namespace ActionUnits

open Text

namespace FileSystem

variable {fs : FileSystem} {path : FilePath} {text : String}

/-- A text has the bytes that it was read from. -/
theorem toUTF8_of_fromUTF8? {content : ByteArray} (h : String.fromUTF8? content = some text) :
    text.toUTF8 = content := by
  unfold String.fromUTF8? at h
  split at h
  · cases h
    rfl
  · cases h

/-- What can be read is the text of a file that the path leads to. -/
theorem hasFile_of_read (h : fs.read path = .ok text) :
    fs.follow path path.parts = .ok (fs.locate path) ∧
      fs.tree.HasFile (fs.locate path) text.toUTF8 := by
  simp only [read, entry, bind, Except.bind] at h
  cases hfollow : fs.follow path path.parts with
  | error fault => rw [hfollow] at h; cases h
  | ok place =>
      have hplace : place = fs.locate path :=
        (follow_of_keeps (.refl fs : Keeps (fun _ => False) fs fs) hfollow).2
      subst hplace
      refine ⟨rfl, ?_⟩
      rw [hfollow] at h
      cases hentry : fs.tree.get? (fs.locate path) with
      | none => simp only [hentry] at h; cases h
      | some found =>
          cases found with
          | folder entries => simp only [hentry] at h; cases h
          | file content =>
              simp only [hentry] at h
              cases hdecoded : String.fromUTF8? content with
              | none => simp only [hdecoded] at h; cases h
              | some decoded =>
                  simp only [hdecoded] at h
                  cases h
                  rw [toUTF8_of_fromUTF8? hdecoded]
                  exact hentry

theorem exists?_of_read (h : fs.read path = .ok text) : fs.exists? path = true := by
  obtain ⟨hfollow, hfile⟩ := hasFile_of_read h
  exact (read_of_hasFile hfollow hfile).1

/-- A file that is not changed can be read as before. -/
theorem read_of_keeps {changed : Location → Prop} {after : FileSystem}
    (h : fs.read path = .ok text) (hkeeps : Keeps changed fs after)
    (hunchanged : ¬ changed (fs.locate path)) : after.read path = .ok text := by
  obtain ⟨hfollow, hfile⟩ := hasFile_of_read h
  have hthere := (follow_of_keeps hkeeps hfollow).1
  exact (read_of_hasFile hthere (hkeeps.tree.file hunchanged hfile)).2

end FileSystem

namespace Writer

variable {root : FilePath} {unit : GeneratedUnit} {units : List GeneratedUnit}
  {fs after : FileSystem}

/-! ## Units that are up to date -/

/-- The content of a unit stands at its destination, up to blanks around it. -/
def IsCurrent (fs : FileSystem) (root : FilePath) (unit : GeneratedUnit) : Prop :=
  ∃ text, fs.read (unit.destination root) = .ok text ∧ trimText text = trimText unit.content

/-- The check reports a unit as up to date exactly if its destination has its content up to blanks.
-/
theorem check_eq_upToDate_iff : check fs root unit = .ok .upToDate ↔ IsCurrent fs root unit := by
  unfold check IsCurrent
  constructor
  · intro h
    cases hexists : fs.exists? (unit.destination root) with
    | false => simp [hexists, pure, Except.pure] at h
    | true =>
        cases hread : fs.read (unit.destination root) with
        | error fault => simp [hexists, hread, Except.mapError, bind, Except.bind] at h
        | ok text =>
            refine ⟨text, rfl, ?_⟩
            by_cases htrim : trimText text = trimText unit.content
            · exact htrim
            · simp [hexists, hread, Except.mapError, bind, Except.bind, htrim, pure,
                Except.pure] at h
  · rintro ⟨text, hread, htrim⟩
    simp [FileSystem.exists?_of_read hread, hread, Except.mapError, bind, Except.bind, htrim,
      pure, Except.pure]

theorem Holds.isCurrent (h : Holds fs root unit) : IsCurrent fs root unit :=
  ⟨unit.content, h.read, rfl⟩

/-- A unit stays current while its destination is not touched. -/
theorem IsCurrent.of_keeps {changed : Location → Prop} (h : IsCurrent fs root unit)
    (hkeeps : FileSystem.Keeps changed fs after)
    (hunchanged : ¬ changed (fs.locate (unit.destination root))) : IsCurrent after root unit := by
  obtain ⟨text, hread, htrim⟩ := h
  exact ⟨text, FileSystem.read_of_keeps hread hkeeps hunchanged, htrim⟩

/-! ## One unit -/

/-- Writes a unit unless it is up to date; the result tells what was written. -/
def updateUnit (root : FilePath) (unit : GeneratedUnit) (fs : FileSystem) :
    FileSystem × Logged Error (Option WriteResult) :=
  match check fs root unit with
  | .error error => failed fs error
  | .ok .upToDate => (fs, pure none)
  | .ok _ =>
    let (fs, written) := (Writer.mk false).writeUnit root unit fs
    (fs, ⟨written.result.map some, written.events⟩)

/-- Nothing is written for a unit that is current. -/
theorem updateUnit_of_isCurrent (h : IsCurrent fs root unit) :
    updateUnit root unit fs = (fs, pure none) := by
  unfold updateUnit
  rw [check_eq_upToDate_iff.mpr h]

/-- A unit is up to date after it was updated, and nothing but its file has changed. -/
theorem updateUnit_eq_ok {written : Option WriteResult}
    (h : (updateUnit root unit fs).2.result = .ok written) :
    FileSystem.Keeps (· = fs.locate (unit.destination root)) fs (updateUnit root unit fs).1 ∧
      IsCurrent (updateUnit root unit fs).1 root unit := by
  by_cases hcurrent : IsCurrent fs root unit
  · rw [updateUnit_of_isCurrent hcurrent]
    exact ⟨.refl fs, hcurrent⟩
  · have hnot : check fs root unit ≠ .ok .upToDate :=
      fun hcheck => hcurrent (check_eq_upToDate_iff.mp hcheck)
    -- In both remaining states of the file the unit is written.
    unfold updateUnit at h ⊢
    split at h
    next => cases h
    next hcheck => exact absurd hcheck hnot
    next =>
      dsimp only at h ⊢
      cases hwrite : ((Writer.mk false).writeUnit root unit fs).2.result with
      | error e => rw [hwrite] at h; cases h
      | ok result =>
          obtain ⟨hkeeps, hholds⟩ := writeUnit_eq_ok hwrite
          exact ⟨hkeeps, hholds.isCurrent⟩

/-! ## All units -/

/-- Takes a step for each unit, in order, up to the first failure; the results are of the units
that were written. -/
def forUnits (step : GeneratedUnit → FileSystem → FileSystem × Logged Error (Option WriteResult)) :
    List GeneratedUnit → FileSystem → FileSystem × Logged Error (List WriteResult)
  | [], fs => (fs, pure [])
  | unit :: units, fs =>
    let (fs, first) := step unit fs
    match first.result with
    | .error error => (fs, ⟨.error error, first.events⟩)
    | .ok written =>
      let (fs, rest) := forUnits step units fs
      (fs, ⟨rest.result.map (written.toList ++ ·), first.events ++ rest.events⟩)

section Steps

variable {step : GeneratedUnit → FileSystem → FileSystem × Logged Error (Option WriteResult)}

/-- Steps that do nothing do nothing together. -/
theorem forUnits_eq_pure (h : ∀ unit ∈ units, step unit fs = (fs, pure none)) :
    forUnits step units fs = (fs, pure []) := by
  induction units with
  | nil => rfl
  | cons unit units ih =>
      obtain ⟨hunit, hunits⟩ := List.forall_mem_cons.mp h
      simp only [forUnits, hunit, ih hunits]
      rfl

/-- The first step succeeds, and so do the others after it. -/
theorem forUnits_cons_eq_ok {results : List WriteResult}
    (h : (forUnits step (unit :: units) fs).2.result = .ok results) :
    (∃ written, (step unit fs).2.result = .ok written) ∧
      (∃ rest, (forUnits step units (step unit fs).1).2.result = .ok rest) ∧
      (forUnits step (unit :: units) fs).1 = (forUnits step units (step unit fs).1).1 := by
  simp only [forUnits] at h ⊢
  cases hfirst : (step unit fs).2.result with
  | error e => simp only [hfirst] at h; cases h
  | ok written =>
      simp only [hfirst] at h
      refine ⟨⟨written, rfl⟩, ?_, rfl⟩
      cases hrest : (forUnits step units (step unit fs).1).2.result with
      | error e => simp only [hrest] at h; cases h
      | ok rest => exact ⟨rest, rfl⟩

end Steps

/-- Writes the units that are not up to date, in order, up to the first failure. -/
def update (root : FilePath) (units : List GeneratedUnit) (fs : FileSystem) :
    FileSystem × Logged Error (List WriteResult) :=
  forUnits (updateUnit root) units fs

/-- Units with different files are all up to date after they were updated, and nothing but their
files has changed. -/
theorem update_eq_ok {results : List WriteResult}
    (h : (update root units fs).2.result = .ok results)
    (hdistinct : (units.map fun unit => fs.locate (unit.destination root)).Nodup) :
    FileSystem.Keeps (· ∈ units.map fun unit => fs.locate (unit.destination root)) fs
        (update root units fs).1 ∧
      ∀ unit ∈ units, IsCurrent (update root units fs).1 root unit := by
  induction units generalizing fs results with
  | nil => exact ⟨.refl fs, by simp⟩
  | cons unit units ih =>
      obtain ⟨⟨written, hfirst⟩, ⟨rest, hrest⟩, hafter⟩ := forUnits_cons_eq_ok h
      obtain ⟨hkeeps, hcurrent⟩ := updateUnit_eq_ok hfirst
      have hlocate : (fun other : GeneratedUnit =>
          (updateUnit root unit fs).1.locate (other.destination root)) =
          fun other => fs.locate (other.destination root) :=
        funext fun other => hkeeps.locate _
      rw [List.map_cons, List.nodup_cons] at hdistinct
      obtain ⟨hothers, hall⟩ := ih hrest (hlocate ▸ hdistinct.2)
      rw [hlocate] at hothers
      rw [update, hafter, List.map_cons]
      refine ⟨?_, List.forall_mem_cons.mpr ⟨?_, hall⟩⟩
      · refine FileSystem.Keeps.trans (hkeeps.mono fun _ heq => ?_) (hothers.mono fun _ hmem => ?_)
        · exact heq ▸ List.mem_cons_self
        · exact List.mem_cons_of_mem _ hmem
      · -- Later units have other files, so the first one stays up to date.
        refine hcurrent.of_keeps hothers ?_
        rw [hkeeps.locate]
        exact hdistinct.1

/-- After one pass over units with different files all of them are up to date: each file has the
content of its unit up to blanks around it, and another pass writes nothing. -/
theorem update_converges {before : FileSystem} {results : List WriteResult}
    (hdistinct : units.Pairwise fun a b =>
      before.locate (a.destination root) ≠ before.locate (b.destination root))
    (h : (update root units before).2.result = .ok results) :
    (∀ unit ∈ units, check (update root units before).1 root unit = .ok .upToDate) ∧
      (∀ unit ∈ units, ∃ text,
        (update root units before).1.read (unit.destination root) = .ok text ∧
          trimText text = trimText unit.content) ∧
      update root units (update root units before).1 =
        ((update root units before).1, ⟨.ok [], []⟩) := by
  obtain ⟨-, hcurrent⟩ := update_eq_ok h (List.pairwise_map.mpr hdistinct)
  exact ⟨fun unit hunit => check_eq_upToDate_iff.mpr (hcurrent unit hunit), hcurrent,
    forUnits_eq_pure fun unit hunit => updateUnit_of_isCurrent (hcurrent unit hunit)⟩

/-- A file that is up to date but for its blanks, one with another content, and none yet. -/
def staleUnits : List GeneratedUnit :=
  [⟨"A", ⟨"a/A.rs"⟩, "1\n"⟩, ⟨"B", ⟨"a/../B.rs"⟩, "2\n"⟩, ⟨"C", ⟨"c/d/C.rs"⟩, "3\n"⟩]

/-- A root in which the files of the first two units stand. -/
def staleRoot : FileSystem :=
  ⟨[("out", .folder [("a", .folder [("A.rs", .file " 1".toUTF8)]), ("B.rs", .file "x".toUTF8)])],
    [], []⟩

/-- The first file keeps its blanks, the other two units are written. -/
theorem stale_units_updated :
    (update ⟨"out"⟩ staleUnits staleRoot).2.result =
        .ok [.written ⟨"out/a/../B.rs"⟩ 2, .written ⟨"out/c/d/C.rs"⟩ 2] ∧
      (update ⟨"out"⟩ staleUnits staleRoot).1.read ⟨"out/a/A.rs"⟩ = .ok " 1" ∧
      (∀ unit ∈ staleUnits,
        check (update ⟨"out"⟩ staleUnits staleRoot).1 ⟨"out"⟩ unit = .ok .upToDate) ∧
      update ⟨"out"⟩ staleUnits (update ⟨"out"⟩ staleUnits staleRoot).1 =
        ((update ⟨"out"⟩ staleUnits staleRoot).1, ⟨.ok [], []⟩) := by
  have hresult : (update ⟨"out"⟩ staleUnits staleRoot).2.result =
      .ok [.written ⟨"out/a/../B.rs"⟩ 2, .written ⟨"out/c/d/C.rs"⟩ 2] := by
    decide +kernel
  have hdistinct : staleUnits.Pairwise fun a b =>
      staleRoot.locate (a.destination ⟨"out"⟩) ≠ staleRoot.locate (b.destination ⟨"out"⟩) := by
    decide +kernel
  obtain ⟨hcurrent, -, hagain⟩ := update_converges hdistinct hresult
  exact ⟨hresult, by decide +kernel, hcurrent, hagain⟩

end Writer

end ActionUnits
