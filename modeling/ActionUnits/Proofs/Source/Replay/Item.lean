import ActionUnits.Proofs.Source.Replay.Declaration

/-! # Replaying items

An item is told apart by its first words, some of which are no keywords. Where an
item is read again, the second reading tells it apart in the same way, and as a
statement it is an item again.
-/

namespace ActionUnits.Source

variable {m : Mode} {size least : Nat} {g g' : Grammar} {u u' : List Token}

/-! ## What is asked about the start of an item -/

/-- Whether a token may be the first one of an item. -/
def startsItem : Kind → Bool
  | .word _ => true
  | .punct char => char == ':'
  | _ => false

/-- Both readings go on with an item after its visibility. -/
structure ItemStart (u u' : List Token) : Prop extends Lead u u' where
  starts : startsItem (kind u) = true
  signature : isSignature u' = isSignature u
  item : isItemStart u' = isItemStart u
  call : macroStart u' = macroStart u

/-- The words of which the next one tells what they start. -/
def openWords : List String := ["extern", "unsafe", "union", "auto", "default"]

/-- Whether a trait comes next, with or without a mark. -/
def isTraitStart : Peek := (isWord "trait").or ((isWord "auto").and (second (isWord "trait")))

/-- Both readings go on with an item that is no function. -/
structure ItemRest (u u' : List Token) : Prop extends ItemStart u u' where
  after : isOneOf openWords u = true → AfterWord Lead u u'
  trait : isWord "unsafe" u = true → isTraitStart (afterOne u') = isTraitStart (afterOne u)

theorem macroStart_of_words {name other : Ident} {r : List Token} :
    macroStart (.ident name :: .ident other :: r) = .other := by
  have hafter : afterPlainPath (.ident name :: .ident other :: r) =
      if isPlainSegment [.ident name] then some (.ident other :: r) else none := by
    change afterNames (.ident name :: .ident other :: r) = _
    rw [afterNames_ident]
    rfl
  cases hplain : isPlainSegment [.ident name] with
  | false => exact macroStart_of_keyword hplain _
  | true =>
      rw [hplain, if_pos rfl] at hafter
      exact macroStart_of_not_isBang hafter rfl

/-- An item that starts with a word is told by this word and by what comes next. -/
theorem ItemRest.of_word {name : Ident} {r r' : List Token} (h : WordAlike name r r')
    (hleft : isSignature (.ident name :: r) = false)
    (hright : isSignature (.ident name :: r') = false)
    (hcall : isPlainSegment [.ident name] = false ∨
      (∃ other t, r = .ident other :: t) ∧ ∃ other t, r' = .ident other :: t)
    (htrait : name.text = "unsafe" → isTraitStart r' = isTraitStart r) :
    ItemRest (.ident name :: r) (.ident name :: r') := by
  refine ⟨⟨.word _ _ _, rfl, hright.trans hleft.symm, isItemStart_alike h, ?_⟩,
    fun _ => ?_, fun hword => htrait (eq_of_beq hword)⟩
  · rcases hcall with hkeyword | ⟨⟨other, t, rfl⟩, other', t', rfl⟩
    · rw [macroStart_of_keyword hkeyword, macroStart_of_keyword hkeyword]
    · rw [macroStart_of_words, macroStart_of_words]
  · rintro _ _ _ ⟨⟩ ⟨⟩
    exact h.toLead

/-- The keywords of items of which nothing more is asked. -/
def itemKeywords : List String := ["use", "mod", "type", "struct", "enum", "trait", "impl", "macro"]

theorem itemKeywords_closed : ∀ text ∈ itemKeywords, isPlainSegment [.word text] = false ∧
    text ∉ headWords ∧ text ∉ openWords ∧ text ∈ ["pub", "extern", "use", "fn", "mod", "type",
      "struct", "enum", "trait", "impl", "macro"] := by decide

theorem isItemStart_keyword {text : String} (htext : text ∈ ["pub", "extern", "use", "fn", "mod",
    "type", "struct", "enum", "trait", "impl", "macro"]) (r : List Token) :
    isItemStart (.ident ⟨text⟩ :: r) = true := by
  rw [isItemStart_word, itemAfter, anyOf, List.any_cons, Bool.or_eq_true]
  exact .inl (List.any_eq_true.mpr ⟨text, htext, beq_self_eq_true text⟩)

theorem ItemStart.of_keyword {text : String} (h : Known text u u')
    (hplain : isPlainSegment [.word text] = false)
    (hitem : text ∈ ["pub", "extern", "use", "fn", "mod", "type", "struct", "enum", "trait", "impl",
      "macro"]) (hsignature : isSignature u' = isSignature u) : ItemStart u u' := by
  obtain ⟨hword, hlead⟩ := h
  obtain ⟨r, rfl⟩ := exists_of_kind_word (kind_of_isWord hword)
  obtain ⟨r', rfl⟩ := exists_of_kind_word (hlead.kind_eq.symm.trans (kind_of_isWord hword))
  refine ⟨hlead, rfl, hsignature, ?_, ?_⟩
  · rw [isItemStart_keyword hitem, isItemStart_keyword hitem]
  · rw [macroStart_of_keyword hplain, macroStart_of_keyword hplain]

theorem not_isOneOf {text : String} {texts : List String} (h : isWord text u = true)
    (hno : text ∉ texts) : isOneOf texts u = false := by
  cases hyes : isOneOf texts u with
  | false => rfl
  | true =>
      obtain ⟨other, hmem, hother⟩ := List.any_eq_true.mp hyes
      obtain ⟨r, rfl⟩ := exists_of_kind_word (kind_of_isWord h)
      obtain rfl : text = other := eq_of_beq hother
      exact absurd hmem hno

theorem isOneOf_of_isWord {text : String} {texts : List String} (h : isWord text u = true)
    (hmem : text ∈ texts) : isOneOf texts u = true :=
  List.any_eq_true.mpr ⟨text, hmem, h⟩

/-- An item that starts with a keyword of its own is told by it. -/
theorem ItemRest.of_known {text : String} (h : Known text u u') (htext : text ∈ itemKeywords) :
    ItemRest u u' := by
  obtain ⟨hplain, hhead, hopen, hitem⟩ := itemKeywords_closed text htext
  have hright : isWord text u' = true := (Stable.eq_of_lead h.2).symm.trans h.1
  have hnone := not_isOneOf h.1 hopen
  refine ⟨.of_keyword h hplain hitem ?_,
    fun hyes => absurd (hnone.symm.trans hyes) (by decide), fun hyes => ?_⟩
  · rw [not_isSignature hright hhead, not_isSignature h.1 hhead]
  · exact absurd (hnone.symm.trans (isOneOf_of_isWord hyes (by decide))) (by decide)

/-! ## The start of each item -/

theorem isFunctionWord_of_fn (h : isWord "fn" (afterAbi (afterWord "unsafe" u)) = true) :
    isFunctionWord u = true := by
  unfold afterWord at h
  split at h
  next hrisky => exact isOneOf_of_isWord hrisky (by decide)
  next =>
      unfold afterAbi at h
      split at h
      next hforeign => exact isOneOf_of_isWord hforeign (by decide)
      next => exact isOneOf_of_isWord h (by decide)

theorem afterWord_self (text : String) (r : List Token) : afterWord text (.ident ⟨text⟩ :: r) = r := by
  have hword : isWord text (.ident ⟨text⟩ :: r) = true := beq_self_eq_true text
  rw [afterWord, hword]
  rfl

theorem afterWord_other {text : String} (h : isWord text u = false) : afterWord text u = u := by
  rw [afterWord, h]
  rfl

theorem not_isConstValue (h : isWord "fn" (afterAbi (afterWord "unsafe" (afterWord "async" u))) = true) :
    isConstValue u = false := by
  cases hasync : isWord "async" u with
  | true =>
      obtain ⟨r, rfl⟩ := exists_of_kind_word (kind_of_isWord hasync)
      rw [afterWord_self] at h
      have hsecond : second isFunctionWord (.ident ⟨"async"⟩ :: r) = true := isFunctionWord_of_fn h
      simp only [isConstValue, anyOf, List.any_cons, List.any_nil, Peek.butNot, hsecond]
      rfl
  | false =>
      rw [afterWord_other hasync] at h
      obtain ⟨text, hmem, hword⟩ := List.any_eq_true.mp (isFunctionWord_of_fn h)
      obtain ⟨r, rfl⟩ := exists_of_kind_word (kind_of_isWord hword)
      simp only [List.mem_cons, List.not_mem_nil, or_false] at hmem
      rcases hmem with rfl | rfl | rfl <;> rfl

/-- Where a signature starts, an item does. -/
theorem isItemStart_of_isSignature (h : isSignature u = true) : isItemStart u = true := by
  obtain ⟨text, hmem, hword⟩ := List.any_eq_true.mp (isOneOf_of_isSignature h)
  obtain ⟨r, rfl⟩ := exists_of_kind_word (kind_of_isWord hword)
  rw [isSignature_eq] at h
  rw [isItemStart_word]
  simp only [headWords, List.mem_cons, List.not_mem_nil, or_false] at hmem
  rcases hmem with rfl | rfl | rfl | rfl | rfl
  · rw [afterWord_self] at h
    have hvalue := not_isConstValue h
    simp only [itemAfter, anyOf, List.any_cons, Peek.butNot, hvalue]
    rfl
  · rw [afterWord_other (rfl : isWord "const" (.ident ⟨"async"⟩ :: r) = false), afterWord_self] at h
    simp only [itemAfter, anyOf, List.any_cons, Peek.and, isFunctionWord_of_fn h]
    rfl
  · rw [afterWord_other (rfl : isWord "const" (.ident ⟨"unsafe"⟩ :: r) = false),
      afterWord_other (rfl : isWord "async" (.ident ⟨"unsafe"⟩ :: r) = false), afterWord_self] at h
    have hbrace : isGroup .brace r = false := by
      cases hno : isGroup .brace r with
      | false => rfl
      | true =>
          obtain ⟨body, t, rfl⟩ := exists_of_isGroup hno
          cases h
    simp only [itemAfter, anyOf, List.any_cons, Peek.butNot, hbrace]
    rfl
  · exact isItemStart_keyword (by decide) r
  · exact isItemStart_keyword (by decide) r

theorem SignatureStart.itemStart (h : SignatureStart u u') : ItemStart u u' := by
  obtain ⟨text, hmem, hword⟩ := List.any_eq_true.mp (isOneOf_of_isSignature h.left)
  have hplain : ∀ text ∈ headWords, isPlainSegment [.word text] = false := by decide
  obtain ⟨r, rfl⟩ := exists_of_kind_word (kind_of_isWord hword)
  obtain ⟨r', rfl⟩ := exists_of_kind_word (h.kind_eq.symm.trans (kind_of_isWord hword))
  refine ⟨h.toLead, rfl, h.right.trans h.left.symm, ?_, ?_⟩
  · rw [isItemStart_of_isSignature h.left, isItemStart_of_isSignature h.right]
  · rw [macroStart_of_keyword (hplain text hmem), macroStart_of_keyword (hplain text hmem)]

theorem Keyword.itemRest (h : Keyword "static" u u') : ItemRest u u' := by
  obtain ⟨hword, name, r, r', rfl, rfl, hlead⟩ := h
  have hright : isWord "static" (.ident name :: r') = true := hword
  obtain rfl : name = ⟨"static"⟩ := by
    obtain ⟨text⟩ := name
    exact congrArg Ident.mk (eq_of_beq hword)
  exact .of_word (.of_lead hlead (by decide)) (not_isSignature hword (by decide))
    (not_isSignature hright (by decide)) (.inl rfl) nofun

theorem ConstItemStart.itemRest (h : ConstItemStart u u') : ItemRest u u' := by
  obtain ⟨hconst, ⟨name⟩, r, r', rfl, rfl, hname, other, t, t', rfl, rfl, -⟩ := h
  obtain rfl : name = "const" := eq_of_beq hconst
  have hother : ∀ t, (isIdent.or (isWord "_")) (.ident other :: t) = true := fun _ => hname
  have hasync : isWord "async" (.ident other :: t) = false := by
    rcases (Bool.or_eq_true _ _).mp hname with hident | hwild
    · exact not_isWord_of_isIdent rfl hident
    · exact not_isWord_of_isWord hwild (by decide)
  refine .of_word ⟨.word _ _ _, fun _ hyes => absurd (hasync.symm.trans hyes) (by decide), nofun,
    nofun⟩ (isSignature_const rfl (hother t)) (isSignature_const rfl (hother t')) (.inl rfl) nofun

section Marks

variable {mark text : String} (hword : mark ∉ ["const", "for", "async"])
  (hplain : ∀ t, isSignature (.ident ⟨mark⟩ :: .ident ⟨text⟩ :: t) = false)
  (htrait : ∀ t t', isTraitStart (.ident ⟨text⟩ :: t') = isTraitStart (.ident ⟨text⟩ :: t))

include hword hplain htrait

/-- A word that is followed by a keyword. -/
theorem ItemRest.of_mark (hmark : isWord mark u = true) (h : WordThen (Known text) u u') :
    ItemRest u u' := by
  obtain ⟨⟨name⟩, r, r', rfl, rfl, hknown, hlead⟩ := h
  obtain rfl : name = mark := eq_of_beq hmark
  obtain ⟨t, rfl⟩ := exists_of_kind_word (kind_of_isWord hknown)
  obtain ⟨t', rfl⟩ := exists_of_kind_word (hlead.kind_eq.symm.trans (kind_of_isWord hknown))
  exact .of_word (.of_lead hlead hword) (hplain t) (hplain t') (.inr ⟨⟨_, _, rfl⟩, _, _, rfl⟩)
    fun _ => htrait t t'

/-- A keyword, maybe with a word in front of it. -/
theorem ItemRest.of_marked (htext : text ∈ itemKeywords) (h : Marked mark (Known text) u u') :
    ItemRest u u' :=
  h.elim (fun hmark h => .of_mark hword hplain htrait hmark h) fun _ h => .of_known h htext

/-- A keyword, maybe with two words in front of it. -/
theorem ItemRest.of_marks {first : String} (htext : text ∈ itemKeywords)
    (hfirst : first ∉ ["const", "for", "async"])
    (hone : ∀ t, isSignature (.ident ⟨first⟩ :: .ident ⟨text⟩ :: t) = false)
    (htwo : ∀ t, isSignature (.ident ⟨first⟩ :: .ident ⟨mark⟩ :: .ident ⟨text⟩ :: t) = false)
    (hboth : ∀ t t', isTraitStart (.ident ⟨mark⟩ :: .ident ⟨text⟩ :: t') =
      isTraitStart (.ident ⟨mark⟩ :: .ident ⟨text⟩ :: t))
    (h : Marked first (Marked mark (Known text)) u u') : ItemRest u u' := by
  refine h.elim (fun hleft h => ?_) fun _ h => .of_marked hword hplain htrait htext h
  obtain ⟨name, r, r', rfl, rfl, hrest⟩ := h
  refine hrest.elim (fun hmark h => ?_) fun _ h =>
    .of_mark hfirst hone htrait hleft ⟨name, r, r', rfl, rfl, h⟩
  obtain ⟨⟨other⟩, s, s', rfl, rfl, hknown, hlead⟩ := h
  obtain ⟨name⟩ := name
  obtain rfl : name = first := eq_of_beq hleft
  obtain rfl : other = mark := eq_of_beq hmark
  obtain ⟨t, rfl⟩ := exists_of_kind_word (kind_of_isWord hknown)
  obtain ⟨t', rfl⟩ := exists_of_kind_word (hlead.kind_eq.symm.trans (kind_of_isWord hknown))
  exact .of_word (.of_lead (.word _ _ _) hfirst) (htwo t) (htwo t')
    (.inr ⟨⟨_, _, rfl⟩, _, _, rfl⟩) fun _ => hboth t t'

end Marks

theorem TraitStart.itemRest (h : TraitStart u u') : ItemRest u u' :=
  .of_marks (by decide) (fun _ => rfl) (fun _ _ => rfl) (by decide) (by decide) (fun _ => rfl)
    (fun _ => rfl) (fun _ _ => rfl) h

theorem ImplementationStart.itemRest (h : ImplementationStart u u') : ItemRest u u' :=
  .of_marks (by decide) (fun _ => rfl) (fun _ _ => rfl) (by decide) (by decide) (fun _ => rfl)
    (fun _ => rfl) (fun _ _ => rfl) h

/-- Both readings go on with a module. -/
def ModuleStart : Follow := Marked "unsafe" (Known "mod")

theorem ModuleStart.itemRest (h : ModuleStart u u') : ItemRest u u' :=
  .of_marked (by decide) (fun _ => rfl) (fun _ _ => rfl) (by decide) h

/-- Both readings go on with a union. -/
def UnionStart : Follow := fun u u' => isWord "union" u = true ∧ WordThen (NameThen Any) u u'

theorem UnionStart.itemRest (h : UnionStart u u') : ItemRest u u' := by
  obtain ⟨hword, ⟨name⟩, r, r', rfl, rfl, hident, other, t, t', rfl, rfl, -⟩ := h
  have hright : isWord "union" (.ident ⟨name⟩ :: .ident other :: t') = true := hword
  obtain rfl : name = "union" := eq_of_beq hword
  exact .of_word (.of_lead (.word _ _ _) (by decide)) (not_isSignature hword (by decide))
    (not_isSignature hright (by decide)) (.inr ⟨⟨_, _, rfl⟩, _, _, rfl⟩) nofun

theorem ExternCrateStart.itemRest (h : ExternCrateStart u u') : ItemRest u u' := by
  obtain ⟨hword, ⟨name⟩, r, r', rfl, rfl, hcrate, other, t, t', rfl, rfl, hlead⟩ := h
  obtain rfl : name = "extern" := eq_of_beq hword
  have hsignature : ∀ v, isWord "crate" (.ident other :: v) = true →
      isSignature (.ident ⟨"extern"⟩ :: .ident other :: v) = false := fun v hcrate => by
    obtain ⟨other⟩ := other
    obtain rfl : other = "crate" := eq_of_beq hcrate
    rfl
  exact .of_word (.of_lead (.word _ _ _) (by decide)) (hsignature t hcrate) (hsignature t' hcrate)
    (.inl rfl) nofun

theorem cases_of_afterAbi (h : isGroup .brace (afterAbi u) = true) :
    isWord "extern" u = true ∨ isGroup .brace u = true := by
  unfold afterAbi at h
  split at h
  next hforeign => exact .inl hforeign
  next => exact .inr h

theorem not_isTraitStart (h : isGroup .brace (afterAbi u) = true) : isTraitStart u = false := by
  rcases cases_of_afterAbi h with hword | hbrace
  · obtain ⟨r, rfl⟩ := exists_of_kind_word (kind_of_isWord hword)
    rfl
  · obtain ⟨body, r, rfl⟩ := exists_of_isGroup hbrace
    rfl

theorem not_fn_of_brace (h : isGroup .brace u = true) : isWord "fn" u = false := by
  obtain ⟨body, r, rfl⟩ := exists_of_isGroup h
  rfl

theorem isForeignStart_marked (r : List Token) :
    isForeignStart (.ident ⟨"unsafe"⟩ :: r) = isGroup .brace (afterAbi r) := by
  rw [isForeignStart, afterWord_self]

theorem isForeignStart_plain (r : List Token) : isForeignStart (.ident ⟨"extern"⟩ :: r) =
    isGroup .brace (afterAbi (.ident ⟨"extern"⟩ :: r)) := by
  rw [isForeignStart, afterWord_other (by rfl)]

theorem ForeignStart.itemRest (h : ForeignStart u u')
    (hword : isWord "unsafe" u = true ∨ isWord "extern" u = true) : ItemRest u u' := by
  obtain ⟨hmarked, hleft, hright⟩ := h
  refine hmarked.elim (fun hrisky h => ?_) fun hno h => ?_
  · obtain ⟨⟨name⟩, r, r', rfl, rfl, hrest⟩ := h
    obtain rfl : name = "unsafe" := eq_of_beq hrisky
    have hsignature : ∀ v, isForeignStart (.ident ⟨"unsafe"⟩ :: v) = true →
        isSignature (.ident ⟨"unsafe"⟩ :: v) = false := fun v hv => by
      rw [isForeignStart_marked] at hv
      rw [isSignature_eq, afterWord_other (by rfl : isWord "const" _ = false),
        afterWord_other (by rfl : isWord "async" _ = false), afterWord_self, not_fn_of_brace hv]
    refine .of_word (.of_lead (hrest.lead fun _ _ h => h) (by decide)) (hsignature r hleft)
      (hsignature r' hright) (.inl rfl) fun _ => ?_
    rw [isForeignStart_marked] at hleft hright
    rw [not_isTraitStart hleft, not_isTraitStart hright]
  · have hforeign := hword.resolve_left (by rw [hno]; nofun)
    obtain ⟨⟨name⟩, r, r', rfl, rfl, hrest⟩ := h.1 hforeign
    obtain rfl : name = "extern" := eq_of_beq hforeign
    have hsignature : ∀ v, isForeignStart (.ident ⟨"extern"⟩ :: v) = true →
        isSignature (.ident ⟨"extern"⟩ :: v) = false := fun v hv => by
      rw [isForeignStart_plain] at hv
      rw [isSignature_eq, afterWord_other (by rfl : isWord "const" _ = false),
        afterWord_other (by rfl : isWord "async" _ = false),
        afterWord_other (by rfl : isWord "unsafe" _ = false), not_fn_of_brace hv]
    exact .of_word (.of_lead hrest (by decide)) (hsignature r hleft) (hsignature r' hright) (.inl rfl)
      nofun

theorem ExternStart.itemRest (h : ExternStart u u') : ItemRest u u' :=
  h.elim (fun h => h.itemRest) fun h => h.2.itemRest (.inr h.1)

theorem CallStart.item (h : CallStart u u')
    (hword : ∀ text ∈ ["const", "for", "async"], isWord text u = false) :
    isItemStart u' = isItemStart u := by
  cases hany : isAnyWord u with
  | true =>
      obtain ⟨name, r, rfl⟩ := exists_of_isAnyWord hany
      obtain ⟨r', rfl⟩ := exists_of_kind_word h.kind_eq.symm
      refine isItemStart_alike (.of_lead (h.word name r r' rfl rfl) fun hmem => ?_)
      exact absurd ((hword _ hmem).symm.trans (beq_self_eq_true name.text)) (by decide)
  | false =>
      have hno : ∀ {v}, isAnyWord v = false → isItemStart v = false := fun {v} hv =>
        isItemStart_of_kind fun name hkind => by
          obtain ⟨r, rfl⟩ := exists_of_kind_word hkind
          cases hv
      rw [hno hany, hno ((Stable.eq_of_lead h.toLead).symm.trans hany)]

/-- A macro call in the place of an item is told from all other items. -/
theorem CallStart.itemRest (h : CallStart u u') (hstart : isMacroStart u = true) :
    ItemRest u u' := by
  have hnone : ∀ {text}, isKeyword ⟨text⟩ = true → text ∉ ["self", "super", "crate"] →
      isWord text u = false := fun hkeyword htext => not_isWord_of_isMacroStart hstart hkeyword htext
  have hkeyword : ∀ text ∈ ["const", "for", "async"],
      isKeyword ⟨text⟩ = true ∧ text ∉ ["self", "super", "crate"] := by decide
  have hkind : KindStart "unsafe" u u' := h.kindStart hstart
  have hstarts : startsItem (kind u) = true := by
    rcases kind_of_isMacroStart hstart with hkind | ⟨name, hkind, -⟩ <;> rw [hkind] <;> rfl
  exact ⟨⟨h.toLead, hstarts, hkind.signature,
    h.item fun text hmem => hnone (hkeyword text hmem).1 (hkeyword text hmem).2, h.call⟩,
    fun _ => h.word, fun hrisky => absurd ((hnone rfl (by decide)).symm.trans hrisky) (by decide)⟩

/-! ## Telling items apart -/

theorem ItemRest.second {question : Peek} [hq : Stable question] {text : String}
    (h : ItemRest u u') (htext : text ∈ openWords) :
    (isWord text).and (Source.second question) u' = (isWord text).and (Source.second question) u :=
  mark_eq h.toLead fun hword => h.after (isOneOf_of_isWord hword htext)

/-- Whether an implementation comes next, as far as its first word tells. -/
def isImplStart : Peek := (isWord "impl").or ((isWord "default").butNot (second (isOp "!")))

/-- An item that starts with `unsafe` and is no function, where it is known that one does. -/
def unsafeKind (g : Grammar) (vis : Visibility) : Parser Found := do
  if ← peek ((isWord "unsafe").and (second isTraitStart)) then traitOrAlias g vis
  else if ← peek ((isWord "unsafe").and (second (isWord "impl"))) then implementation g vis
  else if ← peek ((isWord "unsafe").and (second (isWord "extern"))) then foreignItems g vis
  else moduleItem g vis

theorem unsafeKind_eq (g : Grammar) (vis : Visibility) (p : Parser Found) :
    (peek (isWord "unsafe") >>= fun b => if b = true then
      peek (second isTraitStart) >>= fun b => if b = true then traitOrAlias g vis
        else peek (second (isWord "impl")) >>= fun b => if b = true then implementation g vis
          else peek (second (isWord "extern")) >>= fun b => if b = true then foreignItems g vis
            else moduleItem g vis
      else p) =
      (peek (isWord "unsafe") >>= fun b => if b = true then unsafeKind g vis else p) := by
  funext c
  rw [peek_bind_apply, peek_bind_apply]
  cases hrisky : isWord "unsafe" c.rest with
  | false => rfl
  | true =>
      have hquestion : ∀ (question : Peek) (A B : Parser Found),
          (peek ((isWord "unsafe").and question) >>= fun b => if b = true then A else B) c =
            (peek question >>= fun b => if b = true then A else B) c := by
        intro question A B
        rw [peek_bind_apply, peek_bind_apply, Peek.and, hrisky, Bool.true_and]
      rw [if_pos rfl, if_pos rfl]
      unfold unsafeKind
      rw [hquestion, peek_bind_apply, peek_bind_apply]
      split
      · rfl
      · rw [hquestion, peek_bind_apply, peek_bind_apply]
        split
        · rfl
        · rw [hquestion]

/-- An item that is no function, after its visibility. -/
def otherKind (g : Grammar) (vis : Visibility) : Parser Found := do
  if ← peek (isWord "extern") then externKind g vis
  else if ← peek (isWord "use") then return .ofOption vis false (← useItem true)
  else if ← peek (isWord "static") then staticItem g vis
  else if ← peek (isWord "const") then return .ofOption vis false (← constItem g true)
  else if ← peek (isWord "unsafe") then unsafeKind g vis
  else if ← peek (isWord "mod") then moduleItem g vis
  else if ← peek (isWord "type") then
    typeItem g true true >>= fun a =>
      pure (if a.2.1 || !a.2.2 then .unread else .node [] vis false a.1)
  else if ← peek (isWord "struct") then return .node [] vis false (← structItem g)
  else if ← peek (isWord "enum") then return .node [] vis false (← enumItem g)
  else if ← peek ((isWord "union").and (second isIdent)) then
    return .node [] vis false (← unionItem g)
  else if ← peek isTraitStart then traitOrAlias g vis
  else if ← peek isImplStart then implementation g vis
  else if ← peek (isWord "macro") then macroDefinition
  else
    require (isInherited vis && (← peek isMacroStart))
    return .node [] vis false (← macroItem true)

theorem pure_ofOption (vis : Visibility) (isDefault : Bool) (node : Option Node) :
    (pure (.ofOption vis isDefault node) : Parser Found) =
      match node with
      | some node => pure (.node [] vis isDefault node)
      | none => pure .unread := by
  cases node <;> rfl

theorem itemKind_eq (g : Grammar) (vis : Visibility) : itemKind g vis =
    (peek isSignature >>= fun b => if b = true then functionItem g vis false
      else otherKind g vis) := by
  unfold otherKind
  rw [← externItem_eq, ← unsafeKind_eq]
  simp only [pure_ofOption, apply_ite pure]
  rfl

theorem ItemRest.isTraitStart_eq (h : ItemRest u u') : isTraitStart u' = isTraitStart u := by
  have htrait : isWord "trait" u' = isWord "trait" u := (Stable.eq_of_lead h.toLead).symm
  have hauto : (isWord "auto").and (Source.second (isWord "trait")) u' =
      (isWord "auto").and (Source.second (isWord "trait")) u := h.second (by decide)
  rw [isTraitStart, Peek.or, Peek.or, htrait, hauto]

theorem ItemRest.isImplStart_eq (h : ItemRest u u') : isImplStart u' = isImplStart u := by
  have himpl : isWord "impl" u' = isWord "impl" u := (Stable.eq_of_lead h.toLead).symm
  have hdefault : (isWord "default").and (Source.second fun tokens => !isOp "!" tokens) u' =
      (isWord "default").and (Source.second fun tokens => !isOp "!" tokens) u := h.second (by decide)
  have hrest : (isWord "default").butNot (Source.second (isOp "!")) u' =
      (isWord "default").butNot (Source.second (isOp "!")) u := hdefault
  rw [isImplStart, Peek.or, Peek.or, himpl, hrest]

theorem ItemRest.unsafeTrait_eq (h : ItemRest u u') :
    (isWord "unsafe").and (Source.second isTraitStart) u' =
      (isWord "unsafe").and (Source.second isTraitStart) u := by
  have hrisky : isWord "unsafe" u' = isWord "unsafe" u := (Stable.eq_of_lead h.toLead).symm
  unfold Peek.and
  rw [hrisky]
  cases hword : isWord "unsafe" u with
  | false => rfl
  | true => exact congrArg (true && ·) (h.trait hword)

/-- Items that start with `unsafe` are told apart the same. -/
theorem unsafeKind_replays (hg : ∀ m, Knot m size g g') (hleft : BareTypes g)
    (hright : PlainTypes g') (vis : Visibility) :
    Replays m size 1 (FoundEnds m) (unsafeKind g vis) (unsafeKind g' vis) ItemRest := by
  have hitems := (foreignItems_replays (m := m) hg vis).after
    fun found r r' (_ : FoundEnds m found r r') => trivial
  refine .branch (fun _ _ h => h.unsafeTrait_eq) ?_ (.branch (fun _ _ h => h.second (by decide)) ?_
    (.choice ?_ ?_ fun _ _ h => h.second (by decide)))
  · exact ((traitOrAlias_replays hg vis).after fun _ _ _ _ => trivial).before fun _ _ h => h.itemRest
  · exact (implementation_replays hg hleft hright vis).before fun _ _ h => h.itemRest
  · exact hitems.before fun u u' h hword => h.itemRest (.inl ((Bool.and_eq_true _ _).mp hword).1)
  · exact ((moduleItem_replays (hg m) vis).after fun _ _ _ _ => trivial).before fun _ _ h _ =>
      ModuleStart.itemRest h

/-- Items that are no functions are told apart and read the same again. -/
theorem otherKind_replays (hg : ∀ m, Knot m size g g') (hleft : BareTypes g)
    (hright : PlainTypes g') (vis : Visibility) :
    Replays m size 1 (FoundEnds m) (otherKind g vis) (otherKind g' vis) ItemRest := by
  have hlead : ∀ u u', ItemRest u u' → Lead u u' := fun _ _ h => h.toLead
  have hkeyword : ∀ {p p' : Parser Found} {text : String}, text ∈ itemKeywords →
      Replays m size 1 (fun _ => Any) p p' (Known text) →
      Replays m size 1 (FoundEnds m) p p' ItemRest := fun htext hp =>
    (hp.after fun _ _ _ _ => trivial).before fun _ _ h => .of_known h htext
  have hsole : ∀ {p p' : Parser Node} {Pre : Follow},
      Replays m size 1 (fun _ => Any) p p' Pre → Replays m size 1 (fun _ => Any)
        (p >>= fun node => pure (Found.node [] vis false node))
        (p' >>= fun node => pure (Found.node [] vis false node)) Pre := fun hp => hp.wrap
  -- By the keyword at the start; unions, traits and implementations need more than their first
  -- token.
  refine .ite hlead ?externs (.ite hlead ?uses (.ite hlead ?statics (.ite hlead ?constants
    (.ite hlead ?marked (.ite hlead ?modules (.ite hlead ?synonyms (.ite hlead ?structs
    (.ite hlead ?enums (.branch (fun _ _ h => h.second (by decide)) ?unions
    (.branch (fun _ _ h => h.isTraitStart_eq) ?traits (.branch (fun _ _ h => h.isImplStart_eq) ?impls
    (.ite hlead ?macros ?calls))))))))))))
  case externs =>
    exact ((externKind_replays hg vis).after fun _ _ _ _ => trivial).before fun _ _ h => h.itemRest
  case uses =>
    exact hkeyword (by decide) (((useItem_replays id).wrap).before fun _ _ h => ⟨h.1, h.lead⟩)
  case statics =>
    exact ((staticItem_replays (hg m) vis).after fun _ _ _ _ => trivial).before fun _ _ h => h.itemRest
  case constants =>
    refine ((constItem_replays hg true).result fun node r r' h => ?_).before fun _ _ h => h.itemRest
    rw [FoundEnds, Found.isUnread_ofOption] at h
    exact ⟨h.1, trivial⟩
  case marked => exact unsafeKind_replays hg hleft hright vis
  case modules =>
    exact ((moduleItem_replays (hg m) vis).after fun _ _ _ _ => trivial).before fun _ _ h =>
      ModuleStart.itemRest h
  case synonyms =>
    exact (synonym_replays hg true true (fun node colon defined =>
      if colon || !defined then .unread else .node [] vis false node) fun _ _ _ => rfl).before
      fun _ _ h => .of_known h (by decide)
  case structs => exact hkeyword (by decide) (hsole (structItem_replays hg))
  case enums => exact hkeyword (by decide) (hsole (enumItem_replays hg))
  case unions =>
    exact ((hsole (unionItem_replays hg)).after fun _ _ _ _ => trivial).before fun _ _ h =>
      UnionStart.itemRest h
  case traits =>
    exact ((traitOrAlias_replays hg vis).after fun _ _ _ _ => trivial).before fun _ _ h => h.itemRest
  case impls => exact (implementation_replays hg hleft hright vis).before fun _ _ h => h.itemRest
  case macros => exact hkeyword (by decide) macroDefinition_replays
  case calls =>
    exact (callItem_replays vis true (fun b => isInherited vis && b) (Bool.and_false _)).before
      fun _ _ h => h.2.itemRest h.1

/-- Items are told apart and read the same again. -/
theorem itemKind_replays (hg : ∀ m, Knot m size g g') (hleft : BareTypes g)
    (hright : PlainTypes g') (vis : Visibility) :
    Replays m size 1 (FoundEnds m) (itemKind g vis) (itemKind g' vis) ItemStart := by
  rw [itemKind_eq, itemKind_eq]
  refine .branch (fun _ _ h => h.signature) ?_ ((otherKind_replays hg hleft hright vis).before
    fun _ _ h => h.toItemStart)
  exact ((functionItem_replays hg vis false).after fun _ _ _ _ => trivial).before
    fun _ _ h => h.itemStart

/-! ## Items -/

theorem ItemStart.restricted (h : ItemStart u u') : Absent isRestricted u u' :=
  h.notRestricted fun hparen => by
    have hstarts := h.starts
    rw [hparen] at hstarts
    cases hstarts

/-- An item after its attributes. -/
def itemForm (g : Grammar) (attrs : List Node) : Parser (List Node × Found) := do
  let vis ← visibility
  return (attrs, ← itemKind g vis)

/-- Both readings go on with an item after its attributes. -/
def DeclaredStart : Follow := Either (isWord "pub") Lead ItemStart

theorem DeclaredStart.lead (h : DeclaredStart u u') : Lead u u' :=
  h.elim (fun _ h => h) fun _ h => h.toLead

/-- An item is read the same again behind its attributes. -/
theorem itemForm_replays (hg : ∀ m, Knot m size g g') (hleft : BareTypes g)
    (hright : PlainTypes g') (attrs : List Node) :
    Replays m size 1 (fun a => FoundEnds m a.2) (itemForm g attrs) (itemForm g' attrs)
      DeclaredStart :=
  (visibility_replays (fun _ _ h => h.toLead) fun _ _ h => h.restricted).smaller.bind ItemStart
    (fun vis => (itemKind_replays hg hleft hright vis).result fun _ _ _ h => h) fun _ _ _ h => h

theorem item_eq (g : Grammar) :
    item g = finished (outerAttrs g >>= fun attrs => itemForm g attrs) := by
  unfold item restOfItem finished itemForm
  simp only [bind_assoc, pure_bind]

/-- Items are read the same again. -/
theorem item_replays (hg : ∀ m, Knot m size g g') (hleft : BareTypes g) (hright : PlainTypes g') :
    Replays m size 1 (fun _ => Lead) (item g) (item g') InnerStart := by
  rw [item_eq, item_eq]
  refine finished_replays fun m => ?_
  refine ((outerAttrs_replays (hg m) fun u u' h => ?_).smaller.bind DeclaredStart (fun _ =>
    itemForm_replays hg hleft hright _) fun _ _ _ h => h).before fun u u' h =>
      h.innerStart fun _ _ h => h.lead
  exact .of_stable h.lead

end ActionUnits.Source
