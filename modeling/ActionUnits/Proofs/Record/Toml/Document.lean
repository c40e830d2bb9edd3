import ActionUnits.Proofs.Record.Toml.Drawing
import ActionUnits.Proofs.Record.Toml.Scalar
import ActionUnits.Proofs.Record.Toml.Text

/-! # TOML documents

The grammar of values and lines, and the data that a document denotes. A document is
told with the number of keys in a row and with the number of collections that stand
inside each other in it, as there is a limit to both. Within the limit a document is
read as the data that it denotes; beyond it, it may be refused.
-/

namespace ActionUnits.Record.Toml

/-! ## The grammar -/

/-- Characters that may stand in a comment. -/
inductive Plains : List Char → List Char → Prop
  | none {cs} : Plains cs cs
  | more {c cs rest} : IsPlain c → Plains cs rest → Plains (c :: cs) rest

/-- A comment, if there is one. -/
inductive Comment : List Char → List Char → Prop
  | none {cs} : Comment cs cs
  | some {cs rest} : Plains cs rest → Comment ('#' :: cs) rest

/-- Spaces, line breaks and comments between the parts of a collection. -/
inductive Blanks : List Char → List Char → Prop
  | none {cs} : Blanks cs cs
  | space {c cs rest} : c = ' ' ∨ c = '\t' → Blanks cs rest → Blanks (c :: cs) rest
  | line {cs chars a rest} : Break cs chars a → Blanks a rest → Blanks cs rest
  | comment {cs a chars b rest} : Plains cs a → Break a chars b → Blanks b rest →
    Blanks ('#' :: cs) rest

/-- What a phrase of the grammar denotes. -/
inductive Phrase where
  | value (data : Data)
  /-- The elements of a list, up to its end. -/
  | elements (elements : List Data)
  /-- The keys and values of a table inside a value, up to its end. -/
  | members (pairs : List (List String × Data))

/-- A phrase with at most so many keys in a row and so many collections inside each other. -/
inductive Derives (m : Nat) : Nat → Phrase → List Char → List Char → Prop
  | scalar {n cs data rest} : Scalar cs data → Derives m n (.value data) (cs ++ rest) rest
  | text {n cs text rest} : Text cs text rest →
    Derives m n (.value (.text (some (String.ofList text)))) cs rest
  | list {n cs elements rest} : Derives m n (.elements elements) cs rest →
    Derives m (n + 1) (.value (.list elements true)) ('[' :: cs) rest
  | table {n cs pairs last data rest} : Derives m n (.members pairs) cs rest →
    DrawAll .empty (pairs.map fun pair => .entry pair.1 pair.2) last →
    Holds last.outline [] data → Derives m (n + 1) (.value data) ('\x7b' :: cs) rest
  | noElements {n cs rest} : Blanks cs (']' :: rest) → Derives m n (.elements []) cs rest
  | lastElement {n cs a data b rest} : Blanks cs a → Derives m n (.value data) a b →
    Blanks b (']' :: rest) → Derives m n (.elements [data]) cs rest
  | element {n cs a data b more elements rest} : Blanks cs a → Derives m n (.value data) a b →
    Blanks b (',' :: more) → Derives m n (.elements elements) more rest →
    Derives m n (.elements (data :: elements)) cs rest
  | noMembers {n cs rest} : Blanks cs ('\x7d' :: rest) → Derives m n (.members []) cs rest
  | lastMember {n cs a path b c d data e rest} : Blanks cs a → Keys a path b → path.length ≤ m →
    Spaces b ('=' :: c) → Spaces c d → Derives m n (.value data) d e → Blanks e ('\x7d' :: rest) →
    Derives m n (.members [(path, data)]) cs rest
  | member {n cs a path b c d data e more pairs rest} : Blanks cs a → Keys a path b →
    path.length ≤ m → Spaces b ('=' :: c) → Spaces c d → Derives m n (.value data) d e →
    Blanks e (',' :: more) → Derives m n (.members pairs) more rest →
    Derives m n (.members ((path, data) :: pairs)) cs rest

/-- The content of a line. -/
inductive Says (m n : Nat) : Line → List Char → List Char → Prop
  | blank {cs} : Says m n .blank cs cs
  | table {cs path a rest} : Keys cs path a → path.length ≤ m → Spaces a (']' :: rest) →
    Says m n (.table path) ('[' :: cs) rest
  | element {cs path a rest} : Keys cs path a → path.length ≤ m → Spaces a (']' :: ']' :: rest) →
    Says m n (.element path) ('[' :: '[' :: cs) rest
  | entry {cs path a b c data rest} : Keys cs path a → path.length ≤ m → Spaces a ('=' :: b) →
    Spaces b c → Derives m n (.value data) c rest → Says m n (.entry path data) cs rest

/-- Lines up to the end of a text. -/
inductive Lines (m n : Nat) : List Char → List Line → Prop
  | last {cs a line b c} : Spaces cs a → Says m n line a b → Spaces b c → Comment c [] →
    Lines m n cs [line]
  | more {cs a line b c d chars e lines} : Spaces cs a → Says m n line a b → Spaces b c →
    Comment c d → Break d chars e → Lines m n e lines → Lines m n cs (line :: lines)

/-- The data of a text: what its lines tell, if the rules for tables permit them. A mark of the byte
order may come first. -/
def Denotes (m n : Nat) (text : String) (data : Data) : Prop :=
  ∃ lines last, Lines m n (dropByteOrderMark text.toList) lines ∧ DrawAll .empty lines last ∧
    Holds last.outline [] data

/-! ### Lengths -/

theorem Plains.length {cs rest : List Char} (h : Plains cs rest) : rest.length ≤ cs.length := by
  induction h with
  | none => exact Nat.le_refl _
  | more _ _ ih => exact Nat.le_succ_of_le ih

theorem Blanks.length {cs rest : List Char} (h : Blanks cs rest) : rest.length ≤ cs.length := by
  induction h with
  | none => exact Nat.le_refl _
  | space _ _ ih => exact Nat.le_succ_of_le ih
  | line hbreak _ ih => exact Nat.le_trans ih (Nat.le_of_lt hbreak.length)
  | comment hplains hbreak _ ih =>
    have hplains := hplains.length
    have hbreak := hbreak.length
    rw [List.length_cons]
    omega

theorem Derives.length {m n : Nat} {phrase : Phrase} {cs rest : List Char}
    (h : Derives m n phrase cs rest) : rest.length ≤ cs.length := by
  induction h with
  | scalar _ => rw [List.length_append]; exact Nat.le_add_left _ _
  | text htext => exact Nat.le_of_lt htext.length
  | list _ ih => exact Nat.le_succ_of_le ih
  | table _ _ _ ih => exact Nat.le_succ_of_le ih
  | noElements hblanks => exact Nat.le_of_succ_le hblanks.length
  | noMembers hblanks => exact Nat.le_of_succ_le hblanks.length
  | lastElement hbefore _ hafter ih =>
    exact Nat.le_of_succ_le (hafter.length.trans (ih.trans hbefore.length))
  | element hbefore _ hafter _ ih ih' =>
    exact ih'.trans (Nat.le_of_succ_le (hafter.length.trans (ih.trans hbefore.length)))
  | lastMember hbefore hkeys _ hequals hspaces _ hafter ih =>
    have hbefore := hbefore.length
    have hkeys := hkeys.length
    have hequals := hequals.length
    have hspaces := hspaces.length
    have hafter := hafter.length
    simp only [List.length_cons] at hequals hafter
    omega
  | member hbefore hkeys _ hequals hspaces _ hafter _ ih ih' =>
    have hbefore := hbefore.length
    have hkeys := hkeys.length
    have hequals := hequals.length
    have hspaces := hspaces.length
    have hafter := hafter.length
    simp only [List.length_cons] at hequals hafter
    omega

theorem Says.length {m n : Nat} {line : Line} {cs rest : List Char} (h : Says m n line cs rest) :
    rest.length ≤ cs.length := by
  cases h with
  | blank => exact Nat.le_refl _
  | table hkeys _ hclose =>
    have hkeys := hkeys.length
    have hclose := hclose.length
    simp only [List.length_cons] at hclose ⊢
    omega
  | element hkeys _ hclose =>
    have hkeys := hkeys.length
    have hclose := hclose.length
    simp only [List.length_cons] at hclose ⊢
    omega
  | entry hkeys _ hequals hspaces hvalue =>
    have hkeys := hkeys.length
    have hequals := hequals.length
    have hspaces := hspaces.length
    have hvalue := hvalue.length
    rw [List.length_cons] at hequals
    omega

theorem Comment.length {cs rest : List Char} (h : Comment cs rest) : rest.length ≤ cs.length := by
  cases h with
  | none => exact Nat.le_refl _
  | some hplains => exact Nat.le_succ_of_le hplains.length

/-! ## Blanks -/

/-- A comment ends where its line does. -/
theorem Plains.dropWhile {cs rest : List Char} (h : Plains cs rest)
    (hrest : ∀ c ∈ rest.head?, isControl c = true) :
    cs.dropWhile (fun c => !isControl c) = rest := by
  induction h with
  | @none cs =>
    cases cs with
    | nil => rfl
    | cons c cs => exact List.dropWhile_cons_of_neg (by simp [hrest c rfl])
  | more hc _ ih =>
    rw [List.dropWhile_cons_of_pos (by simp [isControl_of_isPlain hc]), ih hrest]

theorem dropBlanks_space {c : Char} (cs : List Char) (h : isSpace c = true) :
    dropBlanks false (c :: cs) = dropBlanks false cs := by
  rw [isSpace, Bool.or_eq_true, beq_iff_eq, beq_iff_eq] at h
  rcases h with rfl | rfl <;> rfl

theorem dropBlanks_dropWhile (cs : List Char) :
    dropBlanks false (cs.dropWhile isSpace) = dropBlanks false cs := by
  induction cs with
  | nil => rfl
  | cons c cs ih =>
    by_cases hc : isSpace c = true
    · rw [List.dropWhile_cons_of_pos hc, dropBlanks_space _ hc, ih]
    · rw [List.dropWhile_cons_of_neg hc]

/-- A line break ends a comment between the parts of a collection. -/
theorem dropBlanks_break {cs chars rest : List Char} (comment : Bool) (h : Break cs chars rest) :
    dropBlanks comment cs = dropBlanks false rest := by
  cases h <;> rfl

/-- A comment between the parts of a collection is passed up to its end. -/
theorem dropBlanks_plains {cs a chars rest : List Char} (h : Plains cs a)
    (hbreak : Break a chars rest) : dropBlanks true cs = dropBlanks false rest := by
  induction h with
  | none => exact dropBlanks_break true hbreak
  | @more c cs a hc _ ih =>
    have hcontrol := isControl_of_isPlain hc
    rw [← ih hbreak, dropBlanks.eq_def]
    split
    · next h => cases h
    · next h => cases h; cases hcontrol
    · next h => cases h; cases hcontrol
    · next h => cases h; rw [if_pos rfl, hcontrol]; rfl

/-- Blanks between the parts of a collection are passed, however they are written. -/
theorem dropBlanks_of_blanks {cs rest : List Char} (h : Blanks cs rest) :
    dropBlanks false cs = dropBlanks false rest := by
  induction h with
  | none => rfl
  | space hc _ ih => rw [dropBlanks_space _ (by rcases hc with rfl | rfl <;> rfl), ih]
  | line hbreak _ ih => rw [dropBlanks_break false hbreak, ih]
  | comment hplains hbreak _ ih => rw [← ih, ← dropBlanks_plains hplains hbreak]; rfl

/-- Something that is no blank comes first, and no bracket that closes a collection. -/
def Starts (cs : List Char) : Prop :=
  ∃ c more, cs = c :: more ∧ c ∉ [' ', '\t', '\n', '\r', '#', ']', '\x7d']

theorem Starts.dropWhile {cs : List Char} (h : Starts cs) : cs.dropWhile isSpace = cs := by
  obtain ⟨c, more, rfl, hc⟩ := h
  refine List.dropWhile_cons_of_neg fun hspace => hc ?_
  rw [isSpace, Bool.or_eq_true, beq_iff_eq, beq_iff_eq] at hspace
  rcases hspace with rfl | rfl <;> decide

theorem Starts.dropBlanks {cs : List Char} (h : Starts cs) : dropBlanks false cs = cs := by
  obtain ⟨c, more, rfl, hc⟩ := h
  simp only [List.mem_cons, List.not_mem_nil, or_false, not_or] at hc
  obtain ⟨hspace, htab, hfeed, hreturn, hmark, -⟩ := hc
  rw [dropBlanks.eq_def]
  split
  · next h => cases h
  · next h => exact absurd (List.cons.inj h).1 hfeed
  · next h => exact absurd (List.cons.inj h).1 hreturn
  · next h =>
    cases h
    simp [isSpace, hmark, hspace, htab]

theorem dropBlanks_close {c : Char} (cs : List Char) (hc : c ∈ [',', ']', '\x7d']) :
    dropBlanks false (c :: cs) = c :: cs := by
  simp only [List.mem_cons, List.not_mem_nil, or_false] at hc
  rcases hc with rfl | rfl | rfl <;> rfl

/-- A value may stand before blanks that end at a mark of a collection. -/
theorem Blanks.ends {cs rest : List Char} {c : Char} (h : Blanks cs (c :: rest))
    (hc : c ∈ [',', ']', '\x7d']) : Ends cs := by
  generalize hend : c :: rest = last at h
  induction h with
  | none =>
    subst hend
    have hspace : ¬ isSpace c = true := by
      simp only [List.mem_cons, List.not_mem_nil, or_false] at hc
      rcases hc with rfl | rfl | rfl <;> decide
    rw [Ends, List.dropWhile_cons_of_neg hspace]
    rintro d ⟨⟩
    exact List.mem_append_left ['\n', '\r', '#'] hc
  | space hspace _ ih =>
    rw [Ends, List.dropWhile_cons_of_pos (by rcases hspace with rfl | rfl <;> rfl)]
    exact ih hend
  | line hbreak _ _ => cases hbreak <;> (rintro d ⟨⟩; decide)
  | comment _ _ _ _ => rintro d ⟨⟩; decide

/-- A key starts with a character that no other part of a document starts with. -/
theorem notMem_of_key {c : Char} (h : isBare c = true ∨ c ∈ ['"', '\'']) :
    c ∉ [' ', '\t', '\n', '\r', '#', ']', '\x7d', '['] := by
  intro hmem
  have hall : ∀ c ∈ [' ', '\t', '\n', '\r', '#', ']', '\x7d', '['],
      ¬ (isBare c = true ∨ c ∈ ['"', '\'']) := by decide
  exact hall c hmem h

/-- The spaces in front of keys do not belong to them. -/
theorem Keys.trim {cs rest : List Char} {path : List String} (h : Keys cs path rest) :
    ∃ c more, cs.dropWhile isSpace = c :: more ∧ (isBare c = true ∨ c ∈ ['"', '\'']) ∧
      Keys (c :: more) path rest := by
  cases h with
  | last hspaces hkey =>
    rw [dropWhile_spaces hspaces, hkey.dropWhile]
    obtain ⟨c, more, rfl, hc⟩ := hkey.exists_cons
    exact ⟨c, more, rfl, hc, .last .none hkey⟩
  | more hspaces hkey hpoint hkeys =>
    rw [dropWhile_spaces hspaces, hkey.dropWhile]
    obtain ⟨c, more, rfl, hc⟩ := hkey.exists_cons
    exact ⟨c, more, rfl, hc, .more .none hkey hpoint hkeys⟩

/-- A value starts with a character of its own. -/
theorem Derives.starts {m n : Nat} {data : Data} {cs rest : List Char}
    (h : Derives m n (.value data) cs rest) : Starts cs := by
  cases h with
  | scalar h =>
    obtain ⟨c, more, rfl, hc⟩ : ∃ c more, _ = c :: more ∧ isRunChar c = true := h.exists_cons
    have hall : ∀ c ∈ [' ', '\t', '\n', '\r', '#', ']', '\x7d'], ¬ isRunChar c = true := by decide
    exact ⟨c, _, rfl, fun hmem => hall c hmem hc⟩
  | text h =>
    obtain ⟨quote, more, rfl, hquote⟩ := h.exists_cons
    have hall : ∀ quote ∈ ['"', '\''], quote ∉ [' ', '\t', '\n', '\r', '#', ']', '\x7d'] := by decide
    exact ⟨quote, more, rfl, hall quote hquote⟩
  | list _ => exact ⟨_, _, rfl, by decide⟩
  | table _ _ _ => exact ⟨_, _, rfl, by decide⟩

/-! ## Values -/

/-- Room for so many keys in a row, and for so many collections inside each other. -/
def Room (m n : Nat) : Prop :=
  m ≤ depthLimit ∧ n ≤ depthLimit

/-- A reader gives a result, or nothing for want of room. -/
def Yields {α : Type} (read : Option α) (result : α) (room : Prop) : Prop :=
  read = some result ∨ ¬ room ∧ read = none

namespace Yields

variable {α β : Type} {read : Option α} {result : α} {room : Prop}

/-- For want of room in one part nothing is read at all. -/
theorem bind {f : α → Option β} {result' : β} (h : Yields read result room)
    (hf : Yields (f result) result' room) : Yields (read.bind f) result' room := by
  obtain rfl | ⟨hroom, rfl⟩ := h
  · exact hf
  · exact .inr ⟨hroom, rfl⟩

/-- What is made of the result is given if the result is. -/
theorem map (f : α → β) (h : Yields read result room) : Yields (read.map f) (f result) room := by
  obtain rfl | ⟨hroom, rfl⟩ := h
  · exact .inl rfl
  · exact .inr ⟨hroom, rfl⟩

end Yields

/-- How a phrase is read. There is room for it if the collections around it and those inside it do
not reach the limit together. -/
def Phrase.Reads (m n : Nat) (cs rest : List Char) : Phrase → Prop
  | .value data => ∀ fuel depth, 2 * cs.length < fuel →
    Yields (valueTo fuel depth cs) (data, rest) (Room m (depth + n))
  | .elements inner => ∀ fuel depth before, 2 * cs.length + 1 < fuel →
    Yields (elementsTo fuel depth before (dropBlanks false cs)) (.list (before ++ inner) true, rest)
      (Room m (depth + n))
  | .members pairs => ∀ fuel depth entries entries', 2 * cs.length + 1 < fuel →
    pairs.foldlM (fun entries pair => Entries.put? pair.1 pair.2 .header entries) entries =
      some entries' →
    Yields (membersTo fuel depth entries (dropBlanks false cs)) (entries'.data, rest)
      (Room m (depth + n))

/-- A value that is no text or collection is read up to its end. -/
theorem valueTo_scalar {fuel depth : Nat} {cs rest : List Char} {data : Data} (h : Scalar cs data)
    (hrest : Ends rest) : valueTo (fuel + 1) depth (cs ++ rest) = some (data, rest) := by
  have hread := scalar?_of_scalar h hrest
  obtain ⟨c, more, rfl, hc⟩ := h.exists_cons
  have hne : ∀ d : Char, isRunChar d = false → c ≠ d := by
    rintro d hd rfl
    exact Bool.noConfusion (hd.symm.trans hc)
  unfold valueTo
  split
  · next heq => exact absurd (List.cons.inj heq).1 (hne '[' rfl)
  · next heq => exact absurd (List.cons.inj heq).1 (hne '\x7b' rfl)
  · next heq => exact absurd (List.cons.inj heq).1 (hne '"' rfl)
  · next heq => exact absurd (List.cons.inj heq).1 (hne '\'' rfl)
  · exact hread

/-- A text is read as a value. -/
theorem valueTo_text {fuel depth : Nat} {cs text rest : List Char} (h : Text cs text rest)
    (hrest : Ends rest) :
    valueTo (fuel + 1) depth cs = some (.text (some (String.ofList text)), rest) := by
  have hread : text? cs = some (text, rest) := text?_of_text h fun quote hquote hnext => by
    have hmem := hrest.head quote hnext
    simp only [List.mem_cons, List.not_mem_nil, or_false] at hquote
    rcases hquote with rfl | rfl <;> exact absurd hmem (by decide)
  obtain ⟨quote, more, rfl, hquote⟩ := h.exists_cons
  simp only [List.mem_cons, List.not_mem_nil, or_false] at hquote
  rcases hquote with rfl | rfl
  all_goals
    unfold valueTo
    simp only [hread]
    rfl

section Step

variable {fuel depth : Nat} {cs a b more : List Char} {before : List Data} {data : Data}
  {entries entries' : Entries} {path : List String}

/-- After an element and a comma come further elements, if there is room for both. -/
theorem elementsTo_comma {result : Data × List Char} {room : Prop} (hcs : Starts cs)
    (h : Yields (valueTo fuel depth cs) (data, b) room) (hb : dropBlanks false b = ',' :: more)
    (hmore : Yields (elementsTo fuel depth (before ++ [data]) (dropBlanks false more)) result room) :
    Yields (elementsTo (fuel + 1) depth before cs) result room := by
  obtain ⟨c, tail, rfl, hc⟩ := hcs
  rw [elementsTo]
  · exact h.bind (by simpa [hb] using hmore)
  · rintro rest ⟨⟩
    exact hc (by decide)

/-- After an element and a closing bracket the list is complete. -/
theorem elementsTo_close {room : Prop} (hcs : Starts cs)
    (h : Yields (valueTo fuel depth cs) (data, b) room) (hb : dropBlanks false b = ']' :: more) :
    Yields (elementsTo (fuel + 1) depth before cs) (.list (before ++ [data]) true, more) room := by
  obtain ⟨c, tail, rfl, hc⟩ := hcs
  rw [elementsTo]
  · exact h.bind (.inl (by simp [hb]))
  · rintro rest ⟨⟩
    exact hc (by decide)

/-- After a member and a comma come further members, if there is room for both. -/
theorem membersTo_comma {result : Data × List Char} {room : Prop} (hcs : Starts cs)
    (hkeys : Yields (keys? cs) (path, '=' :: a) room)
    (h : Yields (valueTo fuel depth (dropBlanks false a)) (data, b) room)
    (hput : Entries.put? path data .header entries = some entries')
    (hb : dropBlanks false b = ',' :: more)
    (hmore : Yields (membersTo fuel depth entries' (dropBlanks false more)) result room) :
    Yields (membersTo (fuel + 1) depth entries cs) result room := by
  have hequals : dropBlanks false ('=' :: a) = '=' :: a := rfl
  obtain ⟨c, tail, rfl, hc⟩ := hcs
  rw [membersTo]
  · refine hkeys.bind ?_
    simp only [hequals, mark?]
    exact h.bind (by simpa [hput, hb] using hmore)
  · rintro rest ⟨⟩
    exact hc (by decide)

/-- After a member and a closing brace the table is complete. -/
theorem membersTo_close {room : Prop} (hcs : Starts cs)
    (hkeys : Yields (keys? cs) (path, '=' :: a) room)
    (h : Yields (valueTo fuel depth (dropBlanks false a)) (data, b) room)
    (hput : Entries.put? path data .header entries = some entries')
    (hb : dropBlanks false b = '\x7d' :: more) :
    Yields (membersTo (fuel + 1) depth entries cs) (entries'.data, more) room := by
  have hequals : dropBlanks false ('=' :: a) = '=' :: a := rfl
  obtain ⟨c, tail, rfl, hc⟩ := hcs
  rw [membersTo]
  · refine hkeys.bind ?_
    simp only [hequals, mark?]
    exact h.bind (.inl (by simp [hput, hb]))
  · rintro rest ⟨⟩
    exact hc (by decide)

/-- A collection is opened if there is room for it. -/
theorem yields_open {m n : Nat} {read : Option (Data × List Char)} {result : Data × List Char}
    (h : Yields read result (Room m (depth + 1 + n))) :
    Yields (if depth < depthLimit then read else none) result (Room m (depth + (n + 1))) := by
  rw [show depth + (n + 1) = depth + 1 + n by omega]
  split
  · exact h
  · exact .inr ⟨fun hroom => by have := hroom.2; omega, rfl⟩

end Step

/-- Keys end before an equals sign or a closing bracket. -/
theorem Spaces.keysEnd {cs rest : List Char} {c : Char} (h : Spaces cs (c :: rest))
    (hc : c ∈ ['=', ']']) : KeysEnd cs ∧ cs.dropWhile isSpace = c :: rest := by
  have hspace : ¬ isSpace c = true := by
    simp only [List.mem_cons, List.not_mem_nil, or_false] at hc
    rcases hc with rfl | rfl <;> decide
  have hdrop : cs.dropWhile isSpace = c :: rest := by
    rw [dropWhile_spaces h, List.dropWhile_cons_of_neg hspace]
  refine ⟨⟨?_, ?_⟩, hdrop⟩
  · cases h with
    | none =>
      rintro d ⟨⟩
      simp only [List.mem_cons, List.not_mem_nil, or_false] at hc
      rcases hc with rfl | rfl <;> rfl
    | more hspace _ =>
      rintro d ⟨⟩
      rcases hspace with rfl | rfl <;> rfl
  · rw [hdrop]
    rintro ⟨⟩
    exact absurd hc (by decide)

/-- Blanks are passed up to a mark of a collection. -/
theorem Blanks.dropBlanks {cs rest : List Char} {c : Char} (h : Blanks cs (c :: rest))
    (hc : c ∈ [',', ']', '\x7d']) : Toml.dropBlanks false cs = c :: rest := by
  rw [dropBlanks_of_blanks h, dropBlanks_close rest hc]

/-- The keys in front of a mark are read, if there is room for them. -/
theorem Keys.yields {m n : Nat} {cs a b : List Char} {path : List String} {c : Char}
    (h : Keys cs path a) (hpath : path.length ≤ m) (hmark : Spaces a (c :: b))
    (hc : c ∈ ['=', ']']) : Yields (keys? cs) (path, c :: b) (Room m n) := by
  obtain ⟨hend, hdrop⟩ := hmark.keysEnd hc
  rw [keys?_of_keys h hend, hdrop]
  split
  · exact .inl rfl
  · next hlimit => exact .inr ⟨fun hroom => hlimit (hpath.trans hroom.1), rfl⟩

/-- The keys and the equals sign in front of a value are read. -/
theorem reads_keys {m n : Nat} {cs a b c d : List Char} {path : List String}
    (hbefore : Blanks cs a) (hkeys : Keys a path b) (hpath : path.length ≤ m)
    (hequals : Spaces b ('=' :: c)) (hspaces : Spaces c d) (hd : Starts d) :
    ∃ a', dropBlanks false cs = a' ∧ Starts a' ∧
      Yields (keys? a') (path, '=' :: c) (Room m n) ∧ dropBlanks false c = d ∧
      d.length < cs.length := by
  have hlength : d.length < cs.length := by
    have hbefore := hbefore.length
    have hkeys := hkeys.length
    have hequals := hequals.length
    have hspaces := hspaces.length
    rw [List.length_cons] at hequals
    omega
  obtain ⟨first, tail, htrim, hfirst, hkeys⟩ := hkeys.trim
  have hstarts : Starts (first :: tail) := ⟨first, tail, rfl, fun hmem =>
    notMem_of_key hfirst (List.mem_append_left ['['] hmem)⟩
  refine ⟨_, ?_, hstarts, hkeys.yields hpath hequals List.mem_cons_self, ?_, hlength⟩
  · rw [dropBlanks_of_blanks hbefore, ← dropBlanks_dropWhile, htrim, hstarts.dropBlanks]
  · rw [← dropBlanks_dropWhile, dropWhile_spaces hspaces, dropBlanks_dropWhile, hd.dropBlanks]

/-- The lines of a table inside a value are put into it one after the other. -/
theorem foldlM_entries (pairs : List (List String × Data)) (entries : Entries) :
    (pairs.map fun pair => Line.entry pair.1 pair.2).foldlM Document.add? ⟨[], entries⟩ =
      (pairs.foldlM (fun entries pair => Entries.put? pair.1 pair.2 .header entries) entries).map
        (Document.mk []) := by
  induction pairs generalizing entries with
  | nil => rfl
  | cons pair pairs ih =>
    rw [List.map_cons, List.foldlM_cons, List.foldlM_cons]
    change ((Entries.put? pair.1 pair.2 .header entries).map (Document.mk [])).bind _ = _
    cases hput : Entries.put? pair.1 pair.2 .header entries with
    | none => rfl
    | some entries' => exact ih entries'

/-- A phrase is read up to its end. -/
theorem Derives.reads {m n : Nat} {phrase : Phrase} {cs rest : List Char}
    (h : Derives m n phrase cs rest) (hrest : ∀ data, phrase = .value data → Ends rest) :
    phrase.Reads m n cs rest := by
  -- Each rule takes one unit of fuel; twice the length is enough, as a rule without a character of
  -- its own comes after one that reads at least one.
  induction h with
  | scalar h =>
    intro fuel depth hfuel
    obtain ⟨fuel, rfl⟩ := Nat.exists_eq_add_one_of_ne_zero (Nat.ne_zero_of_lt hfuel)
    exact .inl (valueTo_scalar h (hrest _ rfl))
  | text h =>
    intro fuel depth hfuel
    obtain ⟨fuel, rfl⟩ := Nat.exists_eq_add_one_of_ne_zero (Nat.ne_zero_of_lt hfuel)
    exact .inl (valueTo_text h (hrest _ rfl))
  | list _ ih =>
    intro fuel depth hfuel
    obtain ⟨fuel, rfl⟩ := Nat.exists_eq_add_one_of_ne_zero (Nat.ne_zero_of_lt hfuel)
    rw [List.length_cons] at hfuel
    rw [valueTo]
    exact yields_open (ih nofun fuel (depth + 1) [] (by omega))
  | table _ hdraw hholds ih =>
    intro fuel depth hfuel
    obtain ⟨fuel, rfl⟩ := Nat.exists_eq_add_one_of_ne_zero (Nat.ne_zero_of_lt hfuel)
    rw [List.length_cons] at hfuel
    -- A table inside a value is built as a document with one line for each member.
    obtain ⟨document, hdocument, rfl⟩ := data_of_drawAll hdraw hholds
    obtain ⟨entries, hentries, rfl⟩ :=
      Option.map_eq_some_iff.mp ((foldlM_entries _ _).symm.trans hdocument)
    rw [valueTo]
    exact yields_open (ih nofun fuel (depth + 1) [] entries (by omega) hentries)
  | noElements hblanks =>
    intro fuel depth before hfuel
    obtain ⟨fuel, rfl⟩ := Nat.exists_eq_add_one_of_ne_zero (Nat.ne_zero_of_lt hfuel)
    rw [hblanks.dropBlanks (by decide), List.append_nil]
    exact .inl rfl
  | lastElement hbefore hvalue hafter ih =>
    intro fuel depth before hfuel
    obtain ⟨fuel, rfl⟩ := Nat.exists_eq_add_one_of_ne_zero (Nat.ne_zero_of_lt hfuel)
    have hlength := hbefore.length
    rw [dropBlanks_of_blanks hbefore, hvalue.starts.dropBlanks]
    exact elementsTo_close hvalue.starts
      (ih (fun _ _ => hafter.ends (by decide)) fuel depth (by omega)) (hafter.dropBlanks (by decide))
  | @element _ _ _ data _ _ _ _ hbefore hvalue hafter _ ih ih' =>
    intro fuel depth before hfuel
    obtain ⟨fuel, rfl⟩ := Nat.exists_eq_add_one_of_ne_zero (Nat.ne_zero_of_lt hfuel)
    have hlength := hbefore.length
    have hvalueLength := hvalue.length
    have hafterLength := hafter.length
    rw [List.length_cons] at hafterLength
    rw [dropBlanks_of_blanks hbefore, hvalue.starts.dropBlanks]
    refine elementsTo_comma hvalue.starts
      (ih (fun _ _ => hafter.ends (by decide)) fuel depth (by omega))
      (hafter.dropBlanks (by decide)) ?_
    have hmore := ih' nofun fuel depth (before ++ [data]) (by omega)
    rwa [List.append_assoc] at hmore
  | noMembers hblanks =>
    intro fuel depth entries entries' hfuel hput
    obtain ⟨fuel, rfl⟩ := Nat.exists_eq_add_one_of_ne_zero (Nat.ne_zero_of_lt hfuel)
    cases hput
    rw [hblanks.dropBlanks (by decide)]
    exact .inl rfl
  | lastMember hbefore hkeys hpath hequals hspaces hvalue hafter ih =>
    intro fuel depth entries entries' hfuel hput
    obtain ⟨fuel, rfl⟩ := Nat.exists_eq_add_one_of_ne_zero (Nat.ne_zero_of_lt hfuel)
    obtain ⟨next, hput, hdone⟩ := Option.bind_eq_some_iff.mp hput
    cases hdone
    obtain ⟨a', hcs, hstarts, hread, hc, hlength⟩ :=
      reads_keys hbefore hkeys hpath hequals hspaces hvalue.starts
    rw [hcs]
    refine membersTo_close hstarts hread ?_ hput (hafter.dropBlanks (by decide))
    rw [hc]
    exact ih (fun _ _ => hafter.ends (by decide)) fuel depth (by omega)
  | member hbefore hkeys hpath hequals hspaces hvalue hafter _ ih ih' =>
    intro fuel depth entries entries' hfuel hput
    obtain ⟨fuel, rfl⟩ := Nat.exists_eq_add_one_of_ne_zero (Nat.ne_zero_of_lt hfuel)
    obtain ⟨next, hput, hmore⟩ := Option.bind_eq_some_iff.mp hput
    obtain ⟨a', hcs, hstarts, hread, hc, hlength⟩ :=
      reads_keys hbefore hkeys hpath hequals hspaces hvalue.starts
    have hvalueLength := hvalue.length
    have hafterLength := hafter.length
    rw [List.length_cons] at hafterLength
    rw [hcs]
    refine membersTo_comma hstarts hread ?_ hput (hafter.dropBlanks (by decide))
      (ih' nofun fuel depth next entries' (by omega) hmore)
    rw [hc]
    exact ih (fun _ _ => hafter.ends (by decide)) fuel depth (by omega)

/-! ## Lines -/

/-- What may follow the content of a line. -/
def EndsLine (rest : List Char) : Prop :=
  ∀ c ∈ (rest.dropWhile isSpace).head?, c ∈ ['\n', '\r', '#']

theorem EndsLine.ends {rest : List Char} (h : EndsLine rest) : Ends rest :=
  fun c hc => List.mem_append_right [',', ']', '\x7d'] (h c hc)

/-- The end of a line, with what is left after its comment. -/
theorem endsLine {b c d : List Char} (hspaces : Spaces b c) (hcomment : Comment c d)
    (hd : ∀ c ∈ d.head?, c ∈ ['\n', '\r']) :
    EndsLine b ∧ dropComment (b.dropWhile isSpace) = d := by
  rw [EndsLine, dropWhile_spaces hspaces]
  cases hcomment with
  | none =>
    cases c with
    | nil => exact ⟨nofun, rfl⟩
    | cons c cs =>
      have hc := hd c rfl
      simp only [List.mem_cons, List.not_mem_nil, or_false] at hc
      rcases hc with rfl | rfl <;> exact ⟨by rintro c ⟨⟩; decide, rfl⟩
  | some hplains =>
    refine ⟨by rintro c ⟨⟩; decide, hplains.dropWhile fun c hc => ?_⟩
    have hmem := hd c hc
    simp only [List.mem_cons, List.not_mem_nil, or_false] at hmem
    rcases hmem with rfl | rfl <;> rfl

theorem line?_blank {cs : List Char} (h : ∀ c ∈ cs.head?, c ∈ ['\n', '\r', '#']) :
    line? cs = some (.blank, cs) := by
  cases cs with
  | nil => rfl
  | cons c cs =>
    have hc := h c rfl
    simp only [List.mem_cons, List.not_mem_nil, or_false] at hc
    rcases hc with rfl | rfl | rfl <;> rfl

/-- An entry is read as its keys and its value are. -/
theorem line?_entry {cs a b c : List Char} {path : List String} (hkeys : Keys cs path a)
    (hequals : Spaces a ('=' :: b)) (hspaces : Spaces b c) (hc : Starts c) :
    ∃ cs', Keys cs' path a ∧ line? (cs.dropWhile isSpace) = (keys? cs').bind fun _ =>
      (value? c).map fun read => (.entry path read.1, read.2) := by
  obtain ⟨first, more, htrim, hfirst, hkeys⟩ := hkeys.trim
  obtain ⟨hend, hdrop⟩ := hequals.keysEnd List.mem_cons_self
  have hread := keys?_of_keys hkeys hend
  have hne : ∀ d ∈ [' ', '\t', '\n', '\r', '#', ']', '\x7d', '['], first ≠ d := by
    rintro d hd rfl
    exact notMem_of_key hfirst hd
  have hvalue : b.dropWhile isSpace = c := (dropWhile_spaces hspaces).trans hc.dropWhile
  refine ⟨_, hkeys, ?_⟩
  rw [htrim, line?]
  · cases hdata : value? c <;> split at hread <;>
      simp [hread, hdrop, mark?, hvalue, hdata, hne]
  · exact fun rest h => absurd h (hne '[' (by decide))
  · exact fun h => absurd h (hne '[' (by decide))

/-- A line is read up to what ends it, if there is room for it. -/
theorem line?_of_says {m n : Nat} {line : Line} {a b : List Char} (h : Says m n line a b)
    (hrest : EndsLine b) : ∃ rest, rest.dropWhile isSpace = b.dropWhile isSpace ∧
      Yields (line? (a.dropWhile isSpace)) (line, rest) (Room m n) := by
  cases h with
  | blank =>
    refine ⟨_, ?_, .inl (line?_blank hrest)⟩
    cases hcs : a.dropWhile isSpace with
    | nil => rfl
    | cons c cs =>
      rw [EndsLine, hcs] at hrest
      have hc := hrest c rfl
      simp only [List.mem_cons, List.not_mem_nil, or_false] at hc
      rcases hc with rfl | rfl | rfl <;> rfl
  | @table cs path a _ hkeys hpath hclose =>
    refine ⟨b, rfl, ?_⟩
    rw [List.dropWhile_cons_of_neg (by decide), line?]
    · exact (hkeys.yields hpath hclose (by decide)).bind (.inl (by simp [mark?]))
    · rintro rest rfl
      obtain ⟨c, more, htrim, hc, -⟩ := hkeys.trim
      obtain rfl := (List.cons.inj htrim).1
      exact absurd hc (by decide)
  | element hkeys hpath hclose =>
    refine ⟨b, rfl, ?_⟩
    rw [List.dropWhile_cons_of_neg (by decide), line?]
    exact (hkeys.yields hpath hclose (by decide)).bind (.inl (by simp [mark?]))
  | entry hkeys hpath hequals hspaces hvalue =>
    have hdata : Yields (value? _) (_, b) (Room m (0 + n)) :=
      hvalue.reads (fun _ _ => hrest.ends) _ 0 (by omega)
    rw [Nat.zero_add] at hdata
    obtain ⟨cs', hkeys', hline⟩ := line?_entry hkeys hequals hspaces hvalue.starts
    rw [hline]
    exact ⟨b, rfl, (hkeys'.yields hpath hequals (by decide)).bind (hdata.map _)⟩

/-- Lines are read one by one, if there is room for them. -/
theorem linesTo_of_lines {m n : Nat} {cs : List Char} {lines : List Line} (h : Lines m n cs lines)
    {fuel : Nat} (hfuel : cs.length < fuel) :
    Yields (linesTo fuel cs) lines (Room m n) := by
  induction h generalizing fuel with
  | last hspaces hcontent hafter hcomment =>
    obtain ⟨fuel, rfl⟩ := Nat.exists_eq_add_one_of_ne_zero (Nat.ne_zero_of_lt hfuel)
    obtain ⟨hend, hdrop⟩ := endsLine hafter hcomment nofun
    obtain ⟨rest, hrest, hline⟩ := line?_of_says hcontent hend
    rw [linesTo, dropWhile_spaces hspaces]
    exact hline.bind (.inl (by simp [hrest, hdrop]))
  | @more _ _ line _ _ d _ e _ hspaces hcontent hafter hcomment hbreak hlines ih =>
    obtain ⟨fuel, rfl⟩ := Nat.exists_eq_add_one_of_ne_zero (Nat.ne_zero_of_lt hfuel)
    have hlength : e.length < fuel := by
      have hspaces := hspaces.length
      have hcontent := hcontent.length
      have hafter := hafter.length
      have hcomment := hcomment.length
      have hbreak := hbreak.length
      omega
    have hd : d ≠ [] ∧ lineBreak? d = some e ∧ ∀ c ∈ d.head?, c ∈ ['\n', '\r'] := by
      cases hbreak <;> exact ⟨List.cons_ne_nil _ _, rfl, by rintro c ⟨⟩; decide⟩
    obtain ⟨hend, hdrop⟩ := endsLine hafter hcomment hd.2.2
    obtain ⟨rest, hrest, hline⟩ := line?_of_says hcontent hend
    rw [linesTo, dropWhile_spaces hspaces]
    refine hline.bind ?_
    have hmore := (ih hlength).bind (f := fun lines => some (line :: lines)) (.inl rfl)
    simpa [hrest, hdrop, hd] using hmore

/-- A text of the grammar is read as the data that it denotes, if there is room for them. -/
theorem read?_of_denotes {m n : Nat} {text : String} {data : Data} (h : Denotes m n text data) :
    Yields (read? text) data (Room m n) := by
  obtain ⟨lines, last, hlines, hdraw, hholds⟩ := h
  obtain ⟨document, hdocument, rfl⟩ := data_of_drawAll hdraw hholds
  refine (linesTo_of_lines hlines (Nat.lt_succ_self _)).bind (.inl ?_)
  rw [hdocument]
  rfl

/-- A list that stands too deep is refused, whatever follows. -/
theorem valueTo_deep {n : Nat} (fuel : Nat) {depth : Nat} (rest : List Char)
    (hdepth : depthLimit ≤ depth + n) :
    valueTo fuel depth (List.replicate (n + 1) '[' ++ rest) = none := by
  induction n generalizing fuel depth with
  | zero =>
    cases fuel with
    | zero => rfl
    | succ fuel => exact if_neg (Nat.not_lt.mpr hdepth)
  | succ n ih =>
    cases fuel with
    | zero => rw [valueTo]
    | succ fuel =>
      rw [List.replicate_succ, List.cons_append, valueTo]
      split
      · cases fuel with
        | zero => rw [elementsTo]
        | succ fuel =>
          have hinner := ih fuel (by omega : depthLimit ≤ (depth + 1) + n)
          rw [List.replicate_succ, List.cons_append] at hinner ⊢
          have hblank : ∀ cs, dropBlanks false ('[' :: cs) = '[' :: cs := fun _ => rfl
          rw [hblank, elementsTo, hinner]
          · rfl
          · rintro _ ⟨⟩
      · rfl

/-! ## Whole data -/

def Phrase.IsWhole : Phrase → Prop
  | .value data => data.isWhole = true
  | .elements inner => ∀ element ∈ inner, element.isWhole = true
  | .members pairs => ∀ pair ∈ pairs, pair.2.isWhole = true

/-- The data that lines tell is whole if each value in them is. -/
theorem isWhole_of_drawAll {lines : List Line} {last : Sketch} {data : Data}
    (h : DrawAll .empty lines last) (hdata : Holds last.outline [] data)
    (hlines : ∀ path value, Line.entry path value ∈ lines → value.isWhole = true) :
    data.isWhole = true := by
  refine isWhole_of_holds hdata fun a value hvalue => ?_
  rcases h.value hvalue with hempty | ⟨path, hmem⟩
  · simp only [Sketch.empty] at hempty
    split at hempty <;> cases hempty
  · exact hlines path value hmem

/-- What the grammar derives has no part missing. -/
theorem Derives.isWhole {m n : Nat} {phrase : Phrase} {cs rest : List Char}
    (h : Derives m n phrase cs rest) : phrase.IsWhole := by
  induction h with
  | scalar h => exact isWhole_of_scalar h
  | text _ => rfl
  | list _ ih => exact isWhole_list_iff.mpr ih
  | table _ hdraw hholds ih =>
    refine isWhole_of_drawAll hdraw hholds fun path value hmem => ?_
    obtain ⟨pair, hpair, heq⟩ := List.mem_map.mp hmem
    cases heq
    exact ih pair hpair
  | noElements _ => nofun
  | lastElement _ _ _ ih => exact List.forall_mem_singleton.mpr ih
  | element _ _ _ _ ih ih' => exact List.forall_mem_cons.mpr ⟨ih, ih'⟩
  | noMembers _ => nofun
  | lastMember _ _ _ _ _ _ _ ih => exact List.forall_mem_singleton.mpr ih
  | member _ _ _ _ _ _ _ _ ih ih' => exact List.forall_mem_cons.mpr ⟨ih, ih'⟩

theorem Lines.isWhole {m n : Nat} {cs : List Char} {lines : List Line} (h : Lines m n cs lines) :
    ∀ path value, Line.entry path value ∈ lines → value.isWhole = true := by
  have hcontent : ∀ {line a b path value}, Says m n line a b → line = .entry path value →
      value.isWhole = true := by
    rintro _ a b path value h rfl
    cases h with
    | entry _ _ _ _ hvalue => exact hvalue.isWhole
  intro path value hmem
  induction h with
  | last _ h _ _ => exact hcontent h (List.mem_singleton.mp hmem).symm
  | more _ h _ _ _ _ ih =>
    rcases List.mem_cons.mp hmem with heq | hmem
    · exact hcontent h heq.symm
    · exact ih hmem

theorem isWhole_of_denotes {m n : Nat} {text : String} {data : Data} (h : Denotes m n text data) :
    data.isWhole = true := by
  obtain ⟨lines, last, hlines, hdraw, hholds⟩ := h
  exact isWhole_of_drawAll hdraw hholds hlines.isWhole

end ActionUnits.Record.Toml
