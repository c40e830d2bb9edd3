import Mathlib.Algebra.Group.Nat.Defs
import ActionUnits.Text.Quoted
import ActionUnits.Token.Lexer

/-! # Literals denote the text they were made from

Reading the body of a written literal gives the text back and stops at the
closing quote. The escapes interact in one place only: the short escape of NUL
is written in full before an octal digit. The lexer reads the same body, so a
written literal is one token of the generated source.
-/

namespace ActionUnits.Text.Quoted

/-! ## Steps of the reader -/

/-- A character that closes nothing is read by itself. -/
theorem readBody_cons {kind : Kind} {mode next : Mode} {c : Char} {out : List Char}
    (hquote : (c == '"' && mode.mayClose) = false) (hstep : step kind mode c = some (next, out))
    (cs : List Char) :
    readBody kind mode (c :: cs) = (readBody kind next cs).map fun r => (out ++ r.1, r.2) := by
  rw [readBody, hquote]
  simp only [Bool.false_eq_true, ↓reduceIte, hstep, bind, Option.bind]
  cases readBody kind next cs <;> rfl

/-- A quote that is not escaped ends the literal. -/
theorem readBody_quote (kind : Kind) (cs : List Char) :
    readBody kind .plain ('"' :: cs) = some ([], cs) := by
  simp [readBody, Mode.mayClose]

/-- A backslash contributes what the character after it stands for. -/
theorem readBody_escape {kind : Kind} {c : Char} {next : Mode} {out : List Char}
    (hstep : stepEscape kind c = some (next, out)) (cs : List Char) :
    readBody kind .plain ('\\' :: c :: cs) =
      (readBody kind next cs).map fun r => (out ++ r.1, r.2) := by
  rw [readBody_cons (by decide) (by rfl : step kind .plain '\\' = some (.escape, [])),
    readBody_cons (by simp [Mode.mayClose]) (by rw [step, hstep])]
  simp [Function.comp_def]

/-- A backslash and the letter of a character stand for the character. -/
theorem readBody_shortEscape {c letter : Char}
    (hstep : stepEscape .text letter = some (.plain, [c])) (cs : List Char) :
    readBody .text .plain ('\\' :: letter :: cs) =
      (readBody .text .plain cs).map fun r => (c :: r.1, r.2) :=
  readBody_escape hstep cs

/-- A hexadecimal digit is read back. -/
theorem hexValue?_digitChar {n : Nat} (hn : n < 16) : hexValue? n.digitChar = some n := by
  have hall : ∀ n : Fin 16, hexValue? (n : Nat).digitChar = some (n : Nat) := by decide
  exact hall ⟨n, hn⟩

/-- The value of a hexadecimal digit, which may be in upper case. -/
def IsHexDigit (c : Char) (value : Nat) : Prop :=
  value < 16 ∧ (c = value.digitChar ∨ c = value.digitChar.toUpper)

/-- A hexadecimal digit has its value. -/
theorem hexValue?_of_isHexDigit {c : Char} {value : Nat} (h : IsHexDigit c value) :
    hexValue? c = some value := by
  have hupper : ∀ n : Fin 16, hexValue? (n : Nat).digitChar.toUpper = some (n : Nat) := by decide
  obtain ⟨hvalue, rfl | rfl⟩ := h
  · exact hexValue?_digitChar hvalue
  · exact hupper ⟨value, hvalue⟩

theorem digitChar_ne {n : Nat} (hn : n < 16) : n.digitChar ≠ '\x7d' ∧ n.digitChar ≠ '_' := by
  have hall : ∀ n : Fin 16, (n : Nat).digitChar ≠ '\x7d' ∧ (n : Nat).digitChar ≠ '_' := by decide
  exact hall ⟨n, hn⟩

/-- A digit of a code is added to its value. -/
theorem readBody_code_digit {n count value : Nat} (hn : n < 16) (hcount : count ≠ 6)
    (cs : List Char) :
    readBody .text (.code count value) (n.digitChar :: cs) =
      readBody .text (.code (count + 1) (value * 16 + n)) cs := by
  obtain ⟨hbrace, hunderscore⟩ := digitChar_ne hn
  have hstep : step .text (.code count value) n.digitChar =
      some (.code (count + 1) (value * 16 + n), []) := by
    simp [step, hbrace, hunderscore, hcount, hexValue?_digitChar hn]
  rw [readBody_cons (by simp [Mode.mayClose]) hstep]
  simp

/-- Reading hexadecimal digits adds their value behind the digits read before. -/
theorem readBody_code_digits (n : Nat) {count value : Nat}
    (hcount : count + (hexDigits n).length ≤ 6) (cs : List Char) :
    readBody .text (.code count value) (hexDigits n ++ cs) =
      readBody .text (.code (count + (hexDigits n).length)
        (value * 16 ^ (hexDigits n).length + n)) cs := by
  induction n using Nat.strongRecOn generalizing cs with
  | _ n ih =>
      unfold hexDigits at hcount ih ⊢
      by_cases hn : n < 16
      · rw [Nat.toDigits_of_lt_base hn] at hcount ⊢
        simp only [List.length_singleton] at hcount
        rw [List.singleton_append, readBody_code_digit hn (by omega)]
        simp
      · rw [Nat.toDigits_of_base_le (by decide) (by omega)] at hcount ⊢
        simp only [List.length_append, List.length_singleton] at hcount ⊢
        rw [List.append_assoc, ih (n / 16) (by omega) (by omega), List.singleton_append,
          readBody_code_digit (Nat.mod_lt _ (by decide)) (by omega)]
        have hvalue : (value * 16 ^ (Nat.toDigits 16 (n / 16)).length + n / 16) * 16 + n % 16 =
            value * 16 ^ ((Nat.toDigits 16 (n / 16)).length + 1) + n := by
          rw [Nat.pow_succ, ← Nat.mul_assoc, Nat.add_mul, Nat.add_assoc, Nat.div_add_mod' n 16]
        rw [hvalue, Nat.add_assoc]

theorem toNat_lt (c : Char) : c.toNat < 16 ^ 6 := by
  have hvalid := c.valid
  simp only [UInt32.isValidChar, Nat.isValidChar] at hvalid
  simp only [Char.toNat]
  omega

/-- An escape by code point stands for its character. -/
theorem readBody_escapeCode (c : Char) (cs : List Char) :
    readBody .text .plain (escapeCode c ++ cs) =
      (readBody .text .plain cs).map fun r => (c :: r.1, r.2) := by
  have hlength : (hexDigits c.toNat).length ≤ 6 :=
    (Nat.length_toDigits_le_iff (by decide) (by decide)).mpr (toNat_lt c)
  have hpositive : 0 < (hexDigits c.toNat).length := Nat.length_toDigits_pos
  have hclose : step .text (.code (0 + (hexDigits c.toNat).length)
      (0 * 16 ^ (hexDigits c.toNat).length + c.toNat)) '\x7d' = some (.plain, [c]) := by
    have hdigits : hexDigits c.toNat ≠ [] := List.ne_nil_of_length_pos hpositive
    have hvalid : c.toNat.isValidChar := c.valid
    simp [step, hdigits, closeCode, hvalid]
  have htext : escapeCode c ++ cs = '\\' :: 'u' :: '\x7b' :: (hexDigits c.toNat ++ '\x7d' :: cs) := by
    simp [escapeCode]
  rw [htext, readBody_escape (by rfl : stepEscape .text 'u' = some (.codeOpen, [])),
    readBody_cons (by simp [Mode.mayClose])
      (by rfl : step .text .codeOpen '\x7b' = some (.code 0 0, [])),
    readBody_code_digits c.toNat (by omega), readBody_cons (by simp [Mode.mayClose]) hclose]
  simp [Function.comp_def]

/-! ## Written literals -/

/-- A character other than NUL is read back from its escape. -/
theorem readBody_escapeChar (c : Char) (cs : List Char) :
    readBody .text .plain (escapeChar c ++ cs) =
      (readBody .text .plain cs).map fun r => (c :: r.1, r.2) := by
  unfold escapeChar
  split
  next h => rw [eq_of_beq h]; exact readBody_shortEscape rfl cs
  next =>
    split
    next h => rw [eq_of_beq h]; exact readBody_shortEscape rfl cs
    next hreturn =>
      split
      next h => rw [eq_of_beq h]; exact readBody_shortEscape rfl cs
      next =>
        split
        next h =>
          rcases Bool.or_eq_true_iff.mp h with hquote | hslash
          · rw [eq_of_beq hquote]
            exact readBody_shortEscape rfl cs
          · rw [eq_of_beq hslash]
            exact readBody_shortEscape rfl cs
        next hplain =>
          split
          next => exact readBody_escapeCode c cs
          next =>
            simp only [Bool.or_eq_true, not_or, Bool.not_eq_true] at hplain
            have hstep : step .text .plain c = some (.plain, [c]) := by
              simp_all [step, stepPlain]
            rw [List.singleton_append, readBody_cons (by simp [hplain.1]) hstep]
            simp

/-- NUL is read back from its short escape, and from the full one. -/
theorem readBody_nul (full : Bool) (cs : List Char) :
    readBody .text .plain ((if full then ['\\', 'x', '0', '0'] else ['\\', '0']) ++ cs) =
      (readBody .text .plain cs).map fun r => (Char.ofNat 0 :: r.1, r.2) := by
  cases full with
  | false => exact readBody_shortEscape rfl cs
  | true =>
      simp only [↓reduceIte, List.cons_append, List.nil_append]
      rw [readBody_escape (by rfl : stepEscape .text 'x' = some (.hexHigh, [])),
        readBody_cons (by decide) (by rfl : step .text .hexHigh '0' = some (.hexLow 0, [])),
        readBody_cons (by decide)
          (by rfl : step .text (.hexLow 0) '0' = some (.plain, [Char.ofNat 0]))]
      simp [Function.comp_def]

/-- Reading a written body gives the text, up to the closing quote. -/
theorem readBody_encodeBody (text rest : List Char) :
    readBody .text .plain (encodeBody text ++ '"' :: rest) = some (text, rest) := by
  induction text with
  | nil => exact readBody_quote .text rest
  | cons c cs ih =>
      rw [encodeBody]
      split
      next hnul =>
        have hc : c = Char.ofNat 0 := by
          rw [← Char.ofNat_toNat c, eq_of_beq hnul]
        simp only [List.append_assoc]
        rw [readBody_nul, ih, hc]
        rfl
      next =>
        rw [List.append_assoc, readBody_escapeChar, ih]
        rfl

/-- A text is read back from its literal. -/
theorem decode?_encode (s : String) : decode? (encode s) = some s := by
  have hbody := readBody_encodeBody s.toList []
  simp [decode?, encode, hbody]

end ActionUnits.Text.Quoted

namespace ActionUnits.Lexer

open Text

/-- An encoded text is one literal, read up to its end. -/
theorem literal?_encode (s : String) :
    literal? (Quoted.encode s).toList = some (Quoted.encode s, []) := by
  have hread : afterLiteral? (Quoted.encode s).toList = some [] := by
    have hbody := Quoted.readBody_encodeBody s.toList []
    simp [afterLiteral?, quoted?, Quoted.encode, strip?, hbody, skipSuffix, plainIdent?]
  rw [literal?, hread]
  simp

/-- A written literal is one token. -/
theorem lex?_encode (s : String) :
    lex? (Quoted.encode s) = some [.literal (Quoted.encode s)] := by
  have hliteral := literal?_encode s
  have hchars : ∃ cs, (Quoted.encode s).toList = '"' :: cs := by simp [Quoted.encode]
  obtain ⟨cs, hcs⟩ := hchars
  rw [hcs] at hliteral
  have hskip : ∀ fuel, skipBlanks fuel ('"' :: cs) = '"' :: cs := by
    intro fuel
    cases fuel with
    | zero => rfl
    | succ fuel =>
        have hnone : skipOne? ('"' :: cs) = none := by
          simp [skipOne?, startsLineComment, startsBlockComment, startsWith, isSpace, isBlank]
        rw [skipBlanks, hnone]
  have hdoc : docComment? ('"' :: cs) = none := by
    simp [docComment?, startsWith]
  have hleaf : leaf? ('"' :: cs) = some (.literal (Quoted.encode s), []) := by
    simp [leaf?, hliteral]
  have hfirst : lexFrom (cs.length + 2) [] [] ('"' :: cs) =
      lexFrom (cs.length + 1) [] [.literal (Quoted.encode s)] [] := by
    rw [lexFrom]
    simp [hskip, hdoc, hleaf, startsWith, errorMark, Delimiter.ofOpening?, Delimiter.ofClosing?]
  rw [lex?, hcs]
  have hmark : ('"'.toNat == 0xfeff) = false := by decide
  simp only [hmark, Bool.false_eq_true, ↓reduceIte, List.length_cons, hfirst]
  simp [lexFrom, skipBlanks, docComment?, startsWith]

end ActionUnits.Lexer
