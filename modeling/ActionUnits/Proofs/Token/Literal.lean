import ActionUnits.Proofs.Token.Break

/-! # Literals before a break

A literal that is complete before a break is read in the same way without the
break. One that is still open there reads into what follows; it is no literal if
nothing there closes it.
-/

namespace ActionUnits.Lexer

open Text

section Break

variable {tail : List Char} {c : Char} {cs more : List Char}

/-- Nothing that closes a literal. -/
def Unquoted (tail : List Char) : Prop :=
  ∀ d ∈ tail, d ∉ ['"', '\'', '#']

/-- A reader ends before a break as it ends before the end of the text, unless it reads into what
follows the break; it does not if nothing there closes a literal. -/
structure Cuttable (tail : List Char) (reader : List Char → Option (List Char)) : Prop where
  live : ∀ {cs r}, reader cs = some r → (reader (cs ++ tail)).isSome = true
  cut : ∀ {cs r}, reader (cs ++ tail) = some r → tail.length ≤ r.length →
    ∃ rest, r = rest ++ tail ∧ reader cs = some rest
  whole : Unquoted tail → ∀ {cs r}, reader (cs ++ tail) = some r → tail.length ≤ r.length

/-- What follows a closing sign that is not in the tail has all of the tail. -/
theorem length_le_of_notMem {body r : List Char} {d : Char} (h : cs ++ tail = body ++ d :: r)
    (hd : d ∉ tail) : tail.length ≤ r.length := by
  by_contra hlt
  have hright : d :: r <:+ cs ++ tail := ⟨body, h.symm⟩
  have hsuffix : d :: r <:+ tail :=
    List.suffix_of_suffix_length_le hright ⟨cs, rfl⟩ (by rw [List.length_cons]; omega)
  exact hd (hsuffix.subset List.mem_cons_self)

namespace Cuttable

variable {reader first second : List Char → Option (List Char)}

/-- A reader that never sees what is appended can be cut anywhere. -/
theorem of_append (h : ∀ cs, reader (cs ++ tail) = (reader cs).map (· ++ tail)) :
    Cuttable tail reader where
  live := by
    intro cs r hr
    rw [h, hr]
    rfl
  cut := by
    intro cs r hr _
    rw [h, Option.map_eq_some_iff] at hr
    obtain ⟨rest, hrest, rfl⟩ := hr
    exact ⟨rest, rfl, hrest⟩
  whole := by
    intro _ cs r hr
    rw [h, Option.map_eq_some_iff] at hr
    obtain ⟨rest, -, rfl⟩ := hr
    simp

/-- Two alternatives can be cut if both can. -/
theorem orElse (hfirst : Cuttable tail first) (hsecond : Cuttable tail second) :
    Cuttable tail fun cs => first cs <|> second cs where
  live := by
    intro cs r hr
    rw [Option.orElse_eq_orElse, Option.orElse_eq_or, Option.isSome_or, Bool.or_eq_true]
    rw [Option.orElse_eq_orElse, Option.orElse_eq_or, Option.or_eq_some_iff] at hr
    obtain hr | ⟨-, hr⟩ := hr
    · exact .inl (hfirst.live hr)
    · exact .inr (hsecond.live hr)
  cut := by
    intro cs r hr hlength
    rw [Option.orElse_eq_orElse, Option.orElse_eq_or, Option.or_eq_some_iff] at hr
    obtain hr | ⟨hnone, hr⟩ := hr
    · obtain ⟨rest, rfl, hrest⟩ := hfirst.cut hr hlength
      exact ⟨rest, rfl, by simp [hrest]⟩
    · obtain ⟨rest, rfl, hrest⟩ := hsecond.cut hr hlength
      have hfirst : first cs = none := by
        cases hcs : first cs with
        | none => rfl
        | some r =>
            have hlive := hfirst.live hcs
            rw [hnone] at hlive
            cases hlive
      exact ⟨rest, rfl, by simp [hfirst, hrest]⟩
  whole := by
    intro hquotes cs r hr
    rw [Option.orElse_eq_orElse, Option.orElse_eq_or, Option.or_eq_some_iff] at hr
    obtain hr | ⟨-, hr⟩ := hr
    · exact hfirst.whole hquotes hr
    · exact hsecond.whole hquotes hr

/-- A suffix after a literal does not reach into a break. -/
theorem suffixed (hreader : Cuttable tail reader) (h : Break tail) :
    Cuttable tail fun cs => (reader cs).map skipSuffix where
  live := by
    intro cs r hr
    obtain ⟨rest, hrest, -⟩ := Option.map_eq_some_iff.mp hr
    rw [Option.isSome_map]
    exact hreader.live hrest
  cut := by
    intro cs r hr hlength
    obtain ⟨whole, hwhole, rfl⟩ := Option.map_eq_some_iff.mp hr
    have hle := (skipSuffix_suffix whole).length_le
    obtain ⟨rest, rfl, hrest⟩ := hreader.cut hwhole (by omega)
    exact ⟨skipSuffix rest, skipSuffix_append h rest, by rw [hrest]; rfl⟩
  whole := by
    intro hquotes cs r hr
    obtain ⟨whole, hwhole, rfl⟩ := Option.map_eq_some_iff.mp hr
    obtain ⟨rest, rfl, -⟩ := hreader.cut hwhole (hreader.whole hquotes hwhole)
    rw [skipSuffix_append h]
    simp

/-- A literal after letters without a break. -/
theorem after {start : List Char} (hreader : Cuttable tail reader)
    (hstart : ∀ d ∈ start, isBreak d = false) (h : Break tail) :
    Cuttable tail fun cs => (strip? start cs).bind reader where
  live := by
    intro cs r hr
    obtain ⟨body, hbody, hrest⟩ := Option.bind_eq_some_iff.mp hr
    rw [strip?_append hstart h, hbody]
    exact hreader.live hrest
  cut := by
    intro cs r hr hlength
    rw [strip?_append hstart h, Option.bind_map] at hr
    obtain ⟨body, hbody, hrest⟩ := Option.bind_eq_some_iff.mp hr
    obtain ⟨rest, rfl, hcut⟩ := hreader.cut hrest hlength
    exact ⟨rest, rfl, by rw [hbody]; exact hcut⟩
  whole := by
    intro hquotes cs r hr
    rw [strip?_append hstart h, Option.bind_map] at hr
    obtain ⟨body, -, hrest⟩ := Option.bind_eq_some_iff.mp hr
    exact hreader.whole hquotes hrest

/-- Where nothing closes a literal, a break does nothing but stand after what is read. -/
theorem append (hreader : Cuttable tail reader) (hquotes : Unquoted tail) (cs : List Char) :
    reader (cs ++ tail) = (reader cs).map (· ++ tail) := by
  cases hlong : reader (cs ++ tail) with
  | some r =>
      obtain ⟨rest, rfl, hrest⟩ := hreader.cut hlong (hreader.whole hquotes hlong)
      rw [hrest]
      rfl
  | none =>
      cases hshort : reader cs with
      | none => rfl
      | some rest =>
          have hlive := hreader.live hshort
          rw [hlong] at hlive
          cases hlive

end Cuttable

/-! ### Quoted literals -/

/-- What the first character of a literal's body does. -/
theorem readBody_cons_eq_some {kind : Quoted.Kind} {mode : Quoted.Mode} {text rest : List Char} :
    Quoted.readBody kind mode (c :: cs) = some (text, rest) ↔
      (c == '"' && mode.mayClose) = true ∧ text = [] ∧ rest = cs ∨
      (c == '"' && mode.mayClose) = false ∧ ∃ next out body,
        Quoted.step kind mode c = some (next, out) ∧
        Quoted.readBody kind next cs = some (body, rest) ∧ text = out ++ body := by
  rw [Quoted.readBody]
  cases c == '"' && mode.mayClose with
  | true => simp [eq_comm]
  | false =>
      simp only [Bool.false_eq_true, if_false, Option.bind_eq_bind, Option.bind_eq_some_iff,
        Option.pure_def, Option.some.injEq, Prod.mk.injEq, Prod.exists, false_and, false_or,
        true_and]
      constructor
      · rintro ⟨next, out, hstep, body, rest', hbody, rfl, rfl⟩
        exact ⟨next, out, body, hstep, hbody, rfl⟩
      · rintro ⟨next, out, body, hstep, hbody, rfl⟩
        exact ⟨next, out, hstep, body, rest, hbody, rfl, rfl⟩

/-- A quote stands in front of what follows a literal's body. -/
theorem exists_of_readBody {kind : Quoted.Kind} {mode : Quoted.Mode} {text rest : List Char}
    (h : Quoted.readBody kind mode cs = some (text, rest)) : ∃ body, cs = body ++ '"' :: rest := by
  induction cs generalizing mode text with
  | nil => cases h
  | cons c cs ih =>
      obtain ⟨hclose, -, rfl⟩ | ⟨-, next, out, body, -, hbody, -⟩ := readBody_cons_eq_some.mp h
      · simp only [Bool.and_eq_true, beq_iff_eq] at hclose
        exact ⟨[], by rw [hclose.1]; rfl⟩
      · obtain ⟨start, rfl⟩ := ih hbody
        exact ⟨c :: start, rfl⟩

/-- The body of a closed literal stays closed, whatever follows. -/
theorem readBody_append {kind : Quoted.Kind} {mode : Quoted.Mode} {text rest : List Char}
    (h : Quoted.readBody kind mode cs = some (text, rest)) (tail : List Char) :
    Quoted.readBody kind mode (cs ++ tail) = some (text, rest ++ tail) := by
  induction cs generalizing mode text with
  | nil => cases h
  | cons c cs ih =>
      rw [List.cons_append, readBody_cons_eq_some]
      obtain ⟨hclose, rfl, rfl⟩ | ⟨hopen, next, out, body, hstep, hbody, rfl⟩ :=
        readBody_cons_eq_some.mp h
      · exact .inl ⟨hclose, rfl, rfl⟩
      · exact .inr ⟨hopen, next, out, body, hstep, ih hbody, rfl⟩

/-- A literal that is closed before the cut is closed without what follows. -/
theorem readBody_cut {kind : Quoted.Kind} {mode : Quoted.Mode} {text r : List Char}
    (h : Quoted.readBody kind mode (cs ++ tail) = some (text, r)) (hr : tail.length ≤ r.length) :
    ∃ rest, r = rest ++ tail ∧ Quoted.readBody kind mode cs = some (text, rest) := by
  induction cs generalizing mode text with
  | nil =>
      obtain ⟨body, hbody⟩ := exists_of_readBody h
      have hlength := congrArg List.length hbody
      simp only [List.nil_append, List.length_append, List.length_cons] at hlength
      omega
  | cons c cs ih =>
      rw [List.cons_append, readBody_cons_eq_some] at h
      obtain ⟨hclose, rfl, rfl⟩ | ⟨hopen, next, out, body, hstep, hbody, rfl⟩ := h
      · exact ⟨cs, rfl, readBody_cons_eq_some.mpr (.inl ⟨hclose, rfl, rfl⟩)⟩
      · obtain ⟨rest, rfl, hrest⟩ := ih hbody
        exact ⟨rest, rfl, readBody_cons_eq_some.mpr
          (.inr ⟨hopen, next, out, body, hstep, hrest, rfl⟩)⟩

/-- Bodies of quoted literals can be cut. -/
theorem body_cuttable (kind : Quoted.Kind) :
    Cuttable tail fun cs => (Quoted.readBody kind .plain cs).map (·.2) where
  live := by
    intro cs r hr
    obtain ⟨⟨text, rest⟩, hbody, -⟩ := Option.map_eq_some_iff.mp hr
    rw [readBody_append hbody]
    rfl
  cut := by
    intro cs r hr hlength
    obtain ⟨⟨text, rest⟩, hbody, rfl⟩ := Option.map_eq_some_iff.mp hr
    obtain ⟨rest, rfl, hcut⟩ := readBody_cut hbody hlength
    exact ⟨rest, rfl, by rw [hcut]; rfl⟩
  whole := by
    intro hquotes cs r hr
    obtain ⟨⟨text, rest⟩, hread, rfl⟩ := Option.map_eq_some_iff.mp hr
    obtain ⟨body, hbody⟩ := exists_of_readBody hread
    exact length_le_of_notMem hbody fun hmem => hquotes _ hmem (by simp)

theorem quoted?_eq (letters : String) (kind : Quoted.Kind) (cs : List Char) :
    quoted? letters kind cs = ((strip? (letters.toList ++ ['"']) cs).bind fun body =>
      (Quoted.readBody kind .plain body).map (·.2)).map skipSuffix := by
  unfold quoted?
  cases strip? (letters.toList ++ ['"']) cs with
  | none => rfl
  | some body => cases hbody : Quoted.readBody kind .plain body <;> simp [hbody]

/-- Quoted literals can be cut. -/
theorem quoted?_cuttable {letters : String} (kind : Quoted.Kind)
    (hletters : ∀ d ∈ letters.toList ++ ['"'], isBreak d = false) (h : Break tail) :
    Cuttable tail (quoted? letters kind) := by
  rw [funext (quoted?_eq letters kind)]
  exact ((body_cuttable kind).after hletters h).suffixed h

/-! ### Raw literals -/

theorem startsWithHashes_eq_isSome (count : Nat) (cs : List Char) :
    Quoted.startsWithHashes count cs = (strip? (List.replicate count '#') cs).isSome := by
  induction count generalizing cs with
  | zero => rfl
  | succ count ih =>
      rw [List.replicate_succ]
      cases cs with
      | nil => rfl
      | cons d ds =>
          rw [strip?]
          split
          next hd =>
            obtain rfl := eq_of_beq hd
            exact ih ds
          next hd =>
            rw [Quoted.startsWithHashes.eq_3 _ _ (by rintro es ⟨⟩; exact hd rfl)]
            rfl

theorem isBreak_of_mem_hashes {count : Nat} : ∀ d ∈ List.replicate count '#', isBreak d = false := by
  intro d hd
  rw [List.eq_of_mem_replicate hd]
  rfl

theorem startsWithHashes_append (h : Break tail) (count : Nat) (cs : List Char) :
    Quoted.startsWithHashes count (cs ++ tail) = Quoted.startsWithHashes count cs := by
  rw [startsWithHashes_eq_isSome, startsWithHashes_eq_isSome, strip?_append isBreak_of_mem_hashes h,
    Option.isSome_map]

theorem exists_of_startsWithHashes {count : Nat} (h : Quoted.startsWithHashes count cs = true) :
    cs = List.replicate count '#' ++ cs.drop count := by
  rw [startsWithHashes_eq_isSome, Option.isSome_iff_exists] at h
  obtain ⟨rest, hrest⟩ := h
  obtain rfl := eq_append_of_strip? hrest
  simp

/-- A character of the body of a raw literal that starts no line break of two characters. -/
theorem readRawBody_cons {kind : Quoted.Kind} {hashes : Nat}
    (h : ∀ ds, c = '\r' → cs ≠ '\n' :: ds) :
    Quoted.readRawBody kind hashes (c :: cs) =
      if c == '"' && Quoted.startsWithHashes hashes cs then some ([], cs.drop hashes)
      else if c == '\r' || (kind = .bytes && 0x80 ≤ c.toNat) || (kind = .nulFree && c.toNat == 0)
      then none
      else (Quoted.readRawBody kind hashes cs).map fun r => (c :: r.1, r.2) :=
  Quoted.readRawBody.eq_3 kind hashes c cs h

/-- A quote or a hash sign stands in front of what follows a raw literal's body. -/
theorem exists_of_readRawBody {kind : Quoted.Kind} {hashes : Nat} {text rest : List Char}
    (h : Quoted.readRawBody kind hashes cs = some (text, rest)) :
    ∃ body d, cs = body ++ d :: rest ∧ (d = '"' ∨ d = '#') := by
  fun_induction Quoted.readRawBody kind hashes cs generalizing text with
  | case1 => cases h
  | case2 cs ih =>
      obtain ⟨⟨text, rest⟩, hbody, heq⟩ := Option.map_eq_some_iff.mp h
      cases heq
      obtain ⟨body, d, rfl, hd⟩ := ih hbody
      exact ⟨'\r' :: '\n' :: body, d, rfl, hd⟩
  | case3 c cs _ hclose =>
      cases h
      simp only [Bool.and_eq_true, beq_iff_eq] at hclose
      obtain ⟨rfl, hhashes⟩ := hclose
      have hcs := exists_of_startsWithHashes hhashes
      cases hashes with
      | zero => exact ⟨[], '"', rfl, .inl rfl⟩
      | succ hashes =>
          rw [List.replicate_succ', List.append_assoc] at hcs
          exact ⟨'"' :: List.replicate hashes '#', '#', congrArg _ hcs, .inr rfl⟩
  | case4 => cases h
  | case5 c cs _ _ _ ih =>
      obtain ⟨⟨text, rest⟩, hbody, heq⟩ := Option.map_eq_some_iff.mp h
      cases heq
      obtain ⟨body, d, rfl, hd⟩ := ih hbody
      exact ⟨c :: body, d, rfl, hd⟩

/-- The body of a closed raw literal stays closed. -/
theorem readRawBody_append {kind : Quoted.Kind} {hashes : Nat} {text rest : List Char}
    (h : Break tail) (hbody : Quoted.readRawBody kind hashes cs = some (text, rest)) :
    Quoted.readRawBody kind hashes (cs ++ tail) = some (text, rest ++ tail) := by
  fun_induction Quoted.readRawBody kind hashes cs generalizing text with
  | case1 => cases hbody
  | case2 cs ih =>
      obtain ⟨⟨text, rest⟩, hmore, heq⟩ := Option.map_eq_some_iff.mp hbody
      cases heq
      rw [List.cons_append, List.cons_append, Quoted.readRawBody, ih hmore]
      rfl
  | case3 c cs hreturn hclose =>
      cases hbody
      simp only [Bool.and_eq_true, beq_iff_eq] at hclose
      obtain ⟨rfl, hhashes⟩ := hclose
      have hlength : hashes ≤ cs.length := by
        rw [exists_of_startsWithHashes hhashes]
        simp
      rw [List.cons_append, readRawBody_cons (by rintro _ ⟨⟩), startsWithHashes_append h, hhashes,
        List.drop_append_of_le_length hlength]
      rfl
  | case4 => cases hbody
  | case5 c cs hreturn hclose hgood ih =>
      obtain ⟨⟨text, rest⟩, hmore, heq⟩ := Option.map_eq_some_iff.mp hbody
      cases heq
      have hc : c ≠ '\r' := by
        rintro rfl
        simp at hgood
      rw [List.cons_append, readRawBody_cons fun _ heq => absurd heq hc, startsWithHashes_append h,
        if_neg hclose, if_neg hgood, ih hmore]
      rfl

/-- A raw literal that is closed before the cut is closed without what follows. -/
theorem readRawBody_cut {kind : Quoted.Kind} {hashes : Nat} {text r : List Char}
    (h : Break tail) (hbody : Quoted.readRawBody kind hashes (cs ++ tail) = some (text, r))
    (hr : tail.length ≤ r.length) :
    ∃ rest, r = rest ++ tail ∧ Quoted.readRawBody kind hashes cs = some (text, rest) := by
  have hshort : ∀ {ds : List Char} {text}, ds.length ≤ tail.length →
      Quoted.readRawBody kind hashes ds ≠ some (text, r) := by
    intro ds text hds heq
    obtain ⟨body, d, rfl, -⟩ := exists_of_readRawBody heq
    simp only [List.length_append, List.length_cons] at hds
    omega
  -- A closing quote is found in front of the break, so the reading never gets to the break; every
  -- case where it would is one that `hshort` excludes.
  fun_induction Quoted.readRawBody kind hashes cs generalizing text with
  | case1 => exact absurd hbody (hshort (Nat.le_refl _))
  | case2 cs ih =>
      rw [List.cons_append, List.cons_append, Quoted.readRawBody, Option.map_eq_some_iff] at hbody
      obtain ⟨⟨text, r⟩, hbody, heq⟩ := hbody
      cases heq
      obtain ⟨rest, rfl, hrest⟩ := ih hbody
      exact ⟨rest, rfl, by rw [hrest]; rfl⟩
  | case3 c cs hreturn hclose =>
      simp only [Bool.and_eq_true, beq_iff_eq] at hclose
      obtain ⟨rfl, hhashes⟩ := hclose
      have hlength : hashes ≤ cs.length := by
        rw [exists_of_startsWithHashes hhashes]
        simp
      rw [List.cons_append, readRawBody_cons (by rintro _ ⟨⟩), startsWithHashes_append h, hhashes,
        List.drop_append_of_le_length hlength] at hbody
      cases hbody
      exact ⟨_, rfl, rfl⟩
  | case4 c cs hreturn hclose hbad =>
      by_cases hfeed : ∃ ds, c = '\r' ∧ cs ++ tail = '\n' :: ds
      · -- Only a break can have put the line feed there.
        obtain ⟨ds, rfl, hds⟩ := hfeed
        cases cs with
        | cons d cs =>
            cases hds
            exact absurd rfl (hreturn cs rfl)
        | nil =>
            obtain rfl : tail = '\n' :: ds := hds
            obtain ⟨⟨text, r⟩, hmore, heq⟩ := Option.map_eq_some_iff.mp hbody
            cases heq
            exact absurd hmore (hshort (Nat.le_succ _))
      · rw [List.cons_append, readRawBody_cons fun ds hc hds => hfeed ⟨ds, hc, hds⟩,
          startsWithHashes_append h, if_neg hclose, if_pos hbad] at hbody
        cases hbody
  | case5 c cs hreturn hclose hgood ih =>
      have hc : c ≠ '\r' := by
        rintro rfl
        simp at hgood
      rw [List.cons_append, readRawBody_cons fun _ heq => absurd heq hc, startsWithHashes_append h,
        if_neg hclose, if_neg hgood, Option.map_eq_some_iff] at hbody
      obtain ⟨⟨text, r⟩, hbody, heq⟩ := hbody
      cases heq
      obtain ⟨rest, rfl, hrest⟩ := ih hbody
      exact ⟨rest, rfl, by rw [hrest]; rfl⟩

theorem readRaw_eq_some {kind : Quoted.Kind} {text rest : List Char} :
    Quoted.readRaw kind cs = some (text, rest) ↔ ∃ body, cs.dropWhile (· == '#') = '"' :: body ∧
      (cs.takeWhile (· == '#')).length ≤ 255 ∧
      Quoted.readRawBody kind (cs.takeWhile (· == '#')).length body = some (text, rest) := by
  have hdrop : cs.drop (cs.takeWhile (· == '#')).length = cs.dropWhile (· == '#') := by
    have hleft := @List.drop_left _ (cs.takeWhile (· == '#')) (cs.dropWhile (· == '#'))
    rwa [List.takeWhile_append_dropWhile] at hleft
  unfold Quoted.readRaw
  dsimp only
  rw [hdrop]
  split
  next body heq => simp [heq]
  next hnone =>
    refine iff_of_false nofun ?_
    rintro ⟨body, hbody, -⟩
    exact hnone body hbody

theorem isHash_of_isBreak (d : Char) (h : isBreak d = true) : (d == '#') = false := by
  obtain rfl | rfl := isBreak_cases h <;> rfl

/-- Raw literals can be cut behind their letters. -/
theorem raw_cuttable (kind : Quoted.Kind) (h : Break tail) :
    Cuttable tail fun cs => (Quoted.readRaw kind cs).map (·.2) where
  live := by
    intro cs r hr
    obtain ⟨⟨text, rest⟩, hraw, -⟩ := Option.map_eq_some_iff.mp hr
    obtain ⟨body, hquote, hcount, hbody⟩ := readRaw_eq_some.mp hraw
    have hlong : Quoted.readRaw kind (cs ++ tail) = some (text, rest ++ tail) := by
      refine readRaw_eq_some.mpr ⟨body ++ tail, ?_, ?_, ?_⟩
      · rw [dropWhile_append isHash_of_isBreak h, hquote, List.cons_append]
      · rwa [takeWhile_append isHash_of_isBreak h]
      · rw [takeWhile_append isHash_of_isBreak h]
        exact readRawBody_append h hbody
    rw [hlong]
    rfl
  cut := by
    intro cs r hr hlength
    obtain ⟨⟨text, rest⟩, hraw, rfl⟩ := Option.map_eq_some_iff.mp hr
    obtain ⟨body, hquote, hcount, hbody⟩ := readRaw_eq_some.mp hraw
    rw [dropWhile_append isHash_of_isBreak h] at hquote
    rw [takeWhile_append isHash_of_isBreak h] at hcount hbody
    cases hdrop : cs.dropWhile (· == '#') with
    | nil =>
        -- A break is no quote.
        rw [hdrop] at hquote
        obtain ⟨c, more, rfl, hc⟩ := h.exists_cons
        cases hquote
        cases hc
    | cons d ds =>
        rw [hdrop] at hquote
        cases hquote
        obtain ⟨rest, rfl, hcut⟩ := readRawBody_cut h hbody hlength
        exact ⟨rest, rfl, by rw [readRaw_eq_some.mpr ⟨ds, hdrop, hcount, hcut⟩]; rfl⟩
  whole := by
    intro hquotes cs r hr
    obtain ⟨⟨text, rest⟩, hraw, rfl⟩ := Option.map_eq_some_iff.mp hr
    obtain ⟨body, hquote, -, hread⟩ := readRaw_eq_some.mp hraw
    obtain ⟨inside, d, rfl, hd⟩ := exists_of_readRawBody hread
    obtain ⟨start, hstart⟩ : (cs ++ tail).dropWhile (· == '#') <:+ cs ++ tail :=
      List.dropWhile_suffix _
    have hcs : cs ++ tail = (start ++ '"' :: inside) ++ d :: rest := by
      rw [← hstart, hquote]
      simp
    refine length_le_of_notMem hcs fun hmem => hquotes d hmem ?_
    obtain rfl | rfl := hd <;> simp

theorem rawQuoted?_eq (letters : String) (kind : Quoted.Kind) (cs : List Char) :
    rawQuoted? letters kind cs = ((strip? letters.toList cs).bind fun body =>
      (Quoted.readRaw kind body).map (·.2)).map skipSuffix := by
  unfold rawQuoted?
  cases strip? letters.toList cs with
  | none => rfl
  | some body => cases hbody : Quoted.readRaw kind body <;> simp [hbody]

/-- Raw literals can be cut. -/
theorem rawQuoted?_cuttable {letters : String} (kind : Quoted.Kind)
    (hletters : ∀ d ∈ letters.toList, isBreak d = false) (h : Break tail) :
    Cuttable tail (rawQuoted? letters kind) := by
  rw [funext (rawQuoted?_eq letters kind)]
  exact ((raw_cuttable kind h).after hletters h).suffixed h

/-! ### Characters -/

def isEscape : Quoted.Mode → Bool
  | .escape => true
  | .hexHigh => true
  | .hexLow _ => true
  | .codeOpen => true
  | .code _ _ => true
  | _ => false

/-- An escape goes on or ends; outside of characters a line break may follow it. -/
theorem step_isEscape {kind : Quoted.Kind} {mode next : Quoted.Mode} {out : List Char}
    (hmode : isEscape mode = true) (h : Quoted.step kind mode c = some (next, out)) :
    next = .plain ∨ next = .margin ∨ next = .marginFeed ∨ isEscape next = true := by
  cases mode with
  | escape =>
      simp only [Quoted.step, Quoted.stepEscape] at h
      split at h
      all_goals grind [isEscape]
  | hexHigh =>
      obtain ⟨n, -, hn⟩ := Option.bind_eq_some_iff.mp h
      split at hn
      · cases hn
      · cases hn
        exact .inr (.inr (.inr rfl))
  | hexLow high =>
      obtain ⟨n, -, hn⟩ := Option.bind_eq_some_iff.mp h
      dsimp only at hn
      split at hn
      · cases hn
      · cases hn
        exact .inl rfl
  | codeOpen =>
      simp only [Quoted.step] at h
      split at h
      · cases h
        exact .inr (.inr (.inr rfl))
      · cases h
  -- Between the braces of a code: a digit, an underscore or the closing brace.
  | code count value =>
      simp only [Quoted.step, Quoted.closeCode] at h
      split at h
      · grind
      · split at h
        · grind [isEscape]
        · split at h
          · cases h
          · obtain ⟨n, -, hn⟩ := Option.map_eq_some_iff.mp h
            cases hn
            exact .inr (.inr (.inr rfl))
  | _ => cases hmode

theorem step_of_isBreak (kind : Quoted.Kind) {mode : Quoted.Mode} (hmode : isEscape mode = true)
    (hc : isBreak c = true) :
    Quoted.step kind mode c = none ∨ Quoted.step kind mode c = some (.margin, []) := by
  obtain rfl | rfl := isBreak_cases hc
  all_goals
    cases mode with
    | escape => simp [Quoted.step, Quoted.stepEscape]
    | hexHigh => exact .inl rfl
    | hexLow high => exact .inl rfl
    | codeOpen => exact .inl rfl
    | code count value =>
        left
        have hhex : Quoted.hexValue? '\n' = none ∧ Quoted.hexValue? '/' = none := ⟨rfl, rfl⟩
        simp [Quoted.step, hhex]
    | _ => cases hmode

theorem escaped?_of_isBreak {kind : Quoted.Kind} {mode : Quoted.Mode}
    (hmode : isEscape mode = true) (hc : isBreak c = true) :
    escaped? kind mode (c :: more) = none := by
  rw [escaped?]
  obtain hstep | hstep := step_of_isBreak kind hmode hc
  · rw [hstep]
  · rw [hstep]

/-- A break behind an escape is no part of it. -/
theorem escaped?_append (h : Break tail) (kind : Quoted.Kind) {mode : Quoted.Mode}
    (hmode : isEscape mode = true) (cs : List Char) :
    escaped? kind mode (cs ++ tail) = (escaped? kind mode cs).map (· ++ tail) := by
  induction cs generalizing mode with
  | nil =>
      obtain ⟨c, more, rfl, hc⟩ := h.exists_cons
      exact escaped?_of_isBreak hmode hc
  | cons d ds ih =>
      rw [List.cons_append, escaped?, escaped?]
      cases hstep : Quoted.step kind mode d with
      | none => rfl
      | some answer =>
          obtain ⟨next, out⟩ := answer
          obtain rfl | rfl | rfl | hnext := step_isEscape hmode hstep
          · rfl
          · rfl
          · rfl
          · cases next with
            | plain => rfl
            | margin => rfl
            | marginFeed => rfl
            | _ => exact ih hnext

/-- What follows the contents of a character, after its opening quote. -/
def characterHead? (kind : Quoted.Kind) : List Char → Option (List Char)
  | '\\' :: esc => escaped? kind .escape esc
  | c :: rest => if kind = Quoted.Kind.bytes && 0x80 ≤ c.toNat then none else some rest
  | [] => none

theorem characterHead?_append (kind : Quoted.Kind) (h : Break tail) (d : Char) (ds : List Char) :
    characterHead? kind (d :: ds ++ tail) = (characterHead? kind (d :: ds)).map (· ++ tail) := by
  rw [List.cons_append]
  by_cases hd : d = '\\'
  · subst hd
    exact escaped?_append h kind (by rfl) ds
  · rw [characterHead?.eq_2 _ _ _ hd, characterHead?.eq_2 _ _ _ hd]
    split <;> rfl

/-- Character literals can be cut behind their quote. -/
theorem character_cuttable (kind : Quoted.Kind) (h : Break tail) :
    Cuttable tail fun cs => (characterHead? kind cs).bind (strip? ['\'']) := by
  have hquote : ∀ d ∈ ['\''], isBreak d = false := by decide
  have hcons : ∀ d ds, (characterHead? kind (d :: ds ++ tail)).bind (strip? ['\'']) =
      ((characterHead? kind (d :: ds)).bind (strip? ['\''])).map (· ++ tail) := by
    intro d ds
    rw [characterHead?_append kind h, Option.bind_map, Option.map_bind]
    exact congrArg _ (funext fun rest => strip?_append hquote h rest)
  -- After an opening quote in front of the break, the closing quote comes after the break.
  have hnil : ∀ r, (characterHead? kind tail).bind (strip? ['\'']) = some r →
      ∃ c, tail = c :: '\'' :: r := by
    intro r hr
    obtain ⟨c, more, rfl, hc⟩ := h.exists_cons
    obtain ⟨rest, hhead, hclose⟩ := Option.bind_eq_some_iff.mp hr
    have hne : c ≠ '\\' := by
      rintro rfl
      cases hc
    rw [characterHead?.eq_2 _ _ _ hne] at hhead
    split at hhead
    · cases hhead
    · cases hhead
      exact ⟨c, congrArg _ (eq_append_of_strip? hclose)⟩
  constructor
  · intro cs r hr
    cases cs with
    | nil => cases hr
    | cons d ds =>
        rw [hcons, hr]
        rfl
  · intro cs r hr hlength
    cases cs with
    | nil =>
        obtain ⟨c, rfl⟩ := hnil r hr
        simp only [List.length_cons] at hlength
        omega
    | cons d ds =>
        rw [hcons, Option.map_eq_some_iff] at hr
        obtain ⟨rest, hrest, rfl⟩ := hr
        exact ⟨rest, rfl, hrest⟩
  · intro hquotes cs r hr
    cases cs with
    | nil =>
        obtain ⟨c, rfl⟩ := hnil r hr
        exact absurd (by simp) (hquotes '\'' (by simp))
    | cons d ds =>
        rw [hcons, Option.map_eq_some_iff] at hr
        obtain ⟨rest, -, rfl⟩ := hr
        simp

theorem character?_eq (letters : String) (kind : Quoted.Kind) (cs : List Char) :
    character? letters kind cs = ((strip? (letters.toList ++ ['\'']) cs).bind fun body =>
      (characterHead? kind body).bind (strip? ['\''])).map skipSuffix := by
  unfold character?
  cases strip? (letters.toList ++ ['\'']) cs with
  | none => rfl
  | some body =>
      simp only [Option.bind_eq_bind, Option.bind_some]
      split
      next esc =>
        rw [characterHead?]
        cases escaped? kind .escape esc with
        | none => rfl
        | some rest => cases hclose : strip? ['\''] rest <;> simp [hclose]
      next d ds hd =>
        rw [characterHead?.eq_2 _ _ _ hd]
        split
        · rfl
        · cases hclose : strip? ['\''] ds <;> simp [hclose]
      next => rfl

/-- Character literals can be cut. -/
theorem character?_cuttable {letters : String} (kind : Quoted.Kind)
    (hletters : ∀ d ∈ letters.toList ++ ['\''], isBreak d = false) (h : Break tail) :
    Cuttable tail (character? letters kind) := by
  rw [funext (character?_eq letters kind)]
  exact ((character_cuttable kind h).after hletters h).suffixed h

/-! ### Literals -/

/-- All that may follow a literal's letters can be cut. -/
theorem afterLiteral?_cuttable (h : Break tail) : Cuttable tail afterLiteral? := by
  unfold afterLiteral?
  refine .orElse (quoted?_cuttable .text (by decide) h) ?_
  refine .orElse (rawQuoted?_cuttable .text (by decide) h) ?_
  refine .orElse (quoted?_cuttable .bytes (by decide) h) ?_
  refine .orElse (rawQuoted?_cuttable .bytes (by decide) h) ?_
  refine .orElse (quoted?_cuttable .nulFree (by decide) h) ?_
  refine .orElse (rawQuoted?_cuttable .nulFree (by decide) h) ?_
  refine .orElse (character?_cuttable .bytes (by decide) h) ?_
  refine .orElse (character?_cuttable .text (by decide) h) ?_
  exact .orElse (.of_append (float?_append h)) (.of_append (int?_append h))

/-- The text of a literal does not depend on what follows it. -/
theorem literal?_eq_some {text : String} {r : List Char} :
    literal? cs = some (text, r) ↔
      afterLiteral? cs = some r ∧ text = String.ofList (cs.take (cs.length - r.length)) := by
  simp only [literal?, Option.bind_eq_bind, Option.bind_eq_some_iff, Option.pure_def,
    Option.some.injEq, Prod.mk.injEq]
  constructor
  · rintro ⟨rest, hrest, rfl, rfl⟩
    exact ⟨hrest, rfl⟩
  · rintro ⟨hrest, rfl⟩
    exact ⟨r, hrest, rfl, rfl⟩

theorem take_append_of_rest (rest : List Char) :
    (cs ++ tail).take ((cs ++ tail).length - (rest ++ tail).length) =
      cs.take (cs.length - rest.length) := by
  rw [List.length_append, List.length_append, Nat.add_sub_add_right,
    List.take_append_of_le_length (Nat.sub_le _ _)]

/-- A literal that ends before the cut is one without what follows. -/
theorem literal?_cut (h : Break tail) {text : String} {r : List Char}
    (hliteral : literal? (cs ++ tail) = some (text, r)) (hr : tail.length ≤ r.length) :
    ∃ rest, r = rest ++ tail ∧ literal? cs = some (text, rest) := by
  obtain ⟨hafter, rfl⟩ := literal?_eq_some.mp hliteral
  obtain ⟨rest, rfl, hrest⟩ := (afterLiteral?_cuttable h).cut hafter hr
  exact ⟨rest, rfl, literal?_eq_some.mpr ⟨hrest, by rw [take_append_of_rest]⟩⟩

/-- Where no literal starts with more text behind, none starts without it. -/
theorem literal?_of_none (h : Break tail) (hliteral : literal? (cs ++ tail) = none) :
    literal? cs = none := by
  have hnone : ∀ cs, literal? cs = none ↔ afterLiteral? cs = none := by
    intro cs
    cases hafter : afterLiteral? cs <;> simp [literal?, hafter]
  rw [hnone] at hliteral ⊢
  cases hcs : afterLiteral? cs with
  | none => rfl
  | some r =>
      have hlive := (afterLiteral?_cuttable h).live hcs
      rw [hliteral] at hlive
      cases hlive

/-- A break without quotes behind a text does not change its first literal. -/
theorem literal?_append (h : Break tail) (hquotes : Unquoted tail) (cs : List Char) :
    literal? (cs ++ tail) = (literal? cs).map fun r => (r.1, r.2 ++ tail) := by
  have hafter := (afterLiteral?_cuttable h).append hquotes cs
  cases hcs : afterLiteral? cs with
  | none =>
      rw [hcs] at hafter
      simp [literal?, hafter, hcs]
  | some rest =>
      rw [hcs] at hafter
      rw [literal?_eq_some.mpr ⟨hcs, rfl⟩, literal?_eq_some.mpr ⟨hafter, rfl⟩,
        take_append_of_rest]
      rfl

end Break

end ActionUnits.Lexer
