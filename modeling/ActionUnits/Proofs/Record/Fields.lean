import ActionUnits.Proofs.Record.Decoding

/-! # The fields of action sets and modules

For each of the five records, the members of an object that gives it, the members
that it must have, and what its schema makes of both.
-/

namespace ActionUnits

open Record

/-! ## What gives a record -/

def Param.slots (param : Param) : List Slot :=
  [⟨"name", GivesText param.name, False⟩,
    ⟨"type", GivesText param.type, False⟩,
    ⟨"mapped_name", GivesOptionalText param.mappedName, param.mappedName = none⟩,
    ⟨"is_required", GivesFlag param.isRequired, param.isRequired = false⟩,
    ⟨"is_sql_expr", GivesFlag param.isSqlExpr, param.isSqlExpr = false⟩,
    ⟨"is_dataset_ref", GivesFlag param.isDatasetRef, param.isDatasetRef = false⟩,
    ⟨"is_dataset_ref_list", GivesFlag param.isDatasetRefList, param.isDatasetRefList = false⟩]

def Action.slots (action : Action) : List Slot :=
  [⟨"id", GivesText action.id, False⟩,
    ⟨"expr", GivesText action.expr, False⟩,
    ⟨"params", GivesList (fun param => GivesRecord param.slots) action.params, action.params = []⟩,
    ⟨"is_multi_out", GivesFlag action.isMultiOut, action.isMultiOut = false⟩,
    ⟨"description", GivesOptionalText action.description, action.description = none⟩]

def ActionSet.slots (set : ActionSet) : List Slot :=
  [⟨"definitions", GivesList (fun action => GivesRecord action.slots) set.definitions, False⟩,
    ⟨"imports", GivesList GivesText set.imports, set.imports = []⟩]

def Binding.slots (binding : Binding) : List Slot :=
  [⟨"name", GivesText binding.name, False⟩,
    ⟨"config_files", GivesList GivesText binding.configFiles, False⟩]

def ModuleDef.slots (module : ModuleDef) : List Slot :=
  [⟨"dataset_type", GivesText module.datasetType, False⟩,
    ⟨"package", GivesText module.package, False⟩,
    ⟨"imports", GivesList GivesText module.imports, module.imports = []⟩,
    ⟨"action_config", GivesList (fun binding => GivesRecord binding.slots) module.bindings,
      module.bindings = []⟩]

namespace Record

/-! ## Reading the records -/

/-- A field is known once its member has been seen. -/
def told {α : Type} (seen : List String) (key : String) (value : α) : Option α :=
  if key ∈ seen then some value else none

section Told

variable {α δ : Type} {seen : List String} {key other : String} {value : α}

@[simp] theorem told_nil : told [] key value = none := rfl

@[simp] theorem told_cons_self : told (key :: seen) key value = some value :=
  if_pos List.mem_cons_self

theorem told_cons_of_ne (h : key ≠ other) : told (other :: seen) key value = told seen key value := by
  simp [told, h]

theorem told_of_notMem (h : key ∉ seen) : told seen key value = none :=
  if_neg h

/-- A required field is given if its member has been seen. -/
theorem required_told {missing : String → RecordFault} (h : key ∉ seen → False) :
    required missing key (told seen key value) = .ok value := by
  rw [told, if_pos (not_not.mp h)]
  rfl

/-- An optional field that has not been seen has its default. -/
theorem getD_told {default : α} (h : key ∉ seen → value = default) :
    (told seen key value).getD default = value := by
  by_cases hkey : key ∈ seen
  · rw [told, if_pos hkey]
    rfl
  · rw [told_of_notMem hkey, h hkey]
    rfl

/-- A member that is seen for the first time is taken. -/
theorem once_told {decoded : Decoded α} (set : Option α → δ) (hseen : key ∉ seen)
    (h : decoded = .ok value) :
    (once (told seen key value) key decoded >>= fun known => pure (set known)) =
      .ok (set (told (key :: seen) key value)) := by
  subst h
  rw [told_of_notMem hseen, told_cons_self]
  rfl

end Told

def ParamDraft.told (param : Param) (seen : List String) : ParamDraft where
  name := Record.told seen "name" param.name
  type := Record.told seen "type" param.type
  mappedName := Record.told seen "mapped_name" param.mappedName
  isRequired := Record.told seen "is_required" param.isRequired
  isSqlExpr := Record.told seen "is_sql_expr" param.isSqlExpr
  isDatasetRef := Record.told seen "is_dataset_ref" param.isDatasetRef
  isDatasetRefList := Record.told seen "is_dataset_ref_list" param.isDatasetRefList

/-- Parameters are read from the members that their slots tell. -/
theorem paramSchema_follows (param : Param) :
    paramSchema.Follows param.slots param (ParamDraft.told param) where
  empty := rfl
  put_slot := by
    intro slot hslot seen data hseen hgives hwhole
    simp only [Param.slots, List.mem_cons, List.not_mem_nil, or_false] at hslot
    rcases hslot with rfl | rfl | rfl | rfl | rfl | rfl | rfl
    · exact (once_told _ hseen (asText_of_gives hgives)).trans
        (by simp [ParamDraft.told, told_cons_of_ne])
    · exact (once_told _ hseen (asText_of_gives hgives)).trans
        (by simp [ParamDraft.told, told_cons_of_ne])
    · exact (once_told _ hseen (asOptionalText_of_gives hgives)).trans
        (by simp [ParamDraft.told, told_cons_of_ne])
    · exact (once_told _ hseen (asFlag_of_gives hgives)).trans
        (by simp [ParamDraft.told, told_cons_of_ne])
    · exact (once_told _ hseen (asFlag_of_gives hgives)).trans
        (by simp [ParamDraft.told, told_cons_of_ne])
    · exact (once_told _ hseen (asFlag_of_gives hgives)).trans
        (by simp [ParamDraft.told, told_cons_of_ne])
    · exact (once_told _ hseen (asFlag_of_gives hgives)).trans
        (by simp [ParamDraft.told, told_cons_of_ne])
  put_other := by
    intro key seen data hkey hwhole
    simp only [Param.slots, List.forall_mem_cons, List.not_mem_nil] at hkey
    obtain ⟨h1, h2, h3, h4, h5, h6, h7, -⟩ := hkey
    have hput : paramSchema.put (ParamDraft.told param seen) key data =
        passOver (ParamDraft.told param seen) data := by
      change ParamDraft.put _ _ _ = _
      unfold ParamDraft.put
      split <;> first | rfl | contradiction
    rw [hput, passOver_eq_ok.mpr ⟨hwhole, rfl⟩]
    simp [ParamDraft.told, told_cons_of_ne, h1, h2, h3, h4, h5, h6, h7]
  finish := by
    intro seen homitted
    simp only [Param.slots, List.forall_mem_cons, List.not_mem_nil] at homitted
    obtain ⟨h1, h2, h3, h4, h5, h6, h7, -⟩ := homitted
    simp only [paramSchema, ParamDraft.told, required_told h1, required_told h2, getD_told h3,
      getD_told h4, getD_told h5, getD_told h6, getD_told h7]
    rfl

/-- A list of records is read if its elements give them one by one. -/
theorem asList_of_follows {α δ : Type} {schema : Schema δ α} {slots : α → List Slot}
    {draft : α → List String → δ} (h : ∀ value, schema.Follows (slots value) value (draft value))
    (exact : Bool) {values : List α} {data : Data}
    (hdata : GivesList (fun value => GivesRecord (slots value)) values data)
    (hwhole : data.isWhole = true) : data.asList (Data.asRecord exact schema) = .ok values :=
  asList_of_gives hdata hwhole fun value _ => (h value).asRecord exact

def ActionDraft.told (action : Action) (seen : List String) : ActionDraft where
  id := Record.told seen "id" action.id
  params := Record.told seen "params" action.params
  expr := Record.told seen "expr" action.expr
  isMultiOut := Record.told seen "is_multi_out" action.isMultiOut
  description := Record.told seen "description" action.description

/-- Actions are read from the members that their slots tell, and their parameters with them. -/
theorem actionSchema_follows (exact : Bool) (action : Action) :
    (actionSchema exact).Follows action.slots action (ActionDraft.told action) where
  empty := rfl
  put_slot := by
    intro slot hslot seen data hseen hgives hwhole
    simp only [Action.slots, List.mem_cons, List.not_mem_nil, or_false] at hslot
    rcases hslot with rfl | rfl | rfl | rfl | rfl
    · exact (once_told _ hseen (asText_of_gives hgives)).trans
        (by simp [ActionDraft.told, told_cons_of_ne])
    · exact (once_told _ hseen (asText_of_gives hgives)).trans
        (by simp [ActionDraft.told, told_cons_of_ne])
    · exact (once_told _ hseen (asList_of_follows paramSchema_follows exact hgives hwhole)).trans
        (by simp [ActionDraft.told, told_cons_of_ne])
    · exact (once_told _ hseen (asFlag_of_gives hgives)).trans
        (by simp [ActionDraft.told, told_cons_of_ne])
    · exact (once_told _ hseen (asOptionalText_of_gives hgives)).trans
        (by simp [ActionDraft.told, told_cons_of_ne])
  put_other := by
    intro key seen data hkey hwhole
    simp only [Action.slots, List.forall_mem_cons, List.not_mem_nil] at hkey
    obtain ⟨h1, h2, h3, h4, h5, -⟩ := hkey
    have hput : (actionSchema exact).put (ActionDraft.told action seen) key data =
        passOver (ActionDraft.told action seen) data := by
      change ActionDraft.put _ _ _ _ = _
      unfold ActionDraft.put
      split <;> first | rfl | contradiction
    rw [hput, passOver_eq_ok.mpr ⟨hwhole, rfl⟩]
    simp [ActionDraft.told, told_cons_of_ne, h1, h2, h3, h4, h5]
  finish := by
    intro seen homitted
    simp only [Action.slots, List.forall_mem_cons, List.not_mem_nil] at homitted
    obtain ⟨h1, h2, h3, h4, h5, -⟩ := homitted
    simp only [actionSchema, ActionDraft.told, required_told h1, required_told h2, getD_told h3,
      getD_told h4, getD_told h5]
    rfl

def SetDraft.told (set : ActionSet) (seen : List String) : SetDraft where
  definitions := Record.told seen "definitions" set.definitions
  imports := Record.told seen "imports" set.imports

/-- Action sets are read from the members that their slots tell, and their actions with them. -/
theorem setSchema_follows (exact : Bool) (set : ActionSet) :
    (setSchema exact).Follows set.slots set (SetDraft.told set) where
  empty := rfl
  put_slot := by
    intro slot hslot seen data hseen hgives hwhole
    simp only [ActionSet.slots, List.mem_cons, List.not_mem_nil, or_false] at hslot
    rcases hslot with rfl | rfl
    · exact (once_told _ hseen (asList_of_follows (actionSchema_follows exact) exact hgives hwhole)).trans
        (by simp [SetDraft.told, told_cons_of_ne])
    · exact (once_told _ hseen (asTexts_of_gives hgives hwhole)).trans
        (by simp [SetDraft.told, told_cons_of_ne])
  put_other := by
    intro key seen data hkey hwhole
    simp only [ActionSet.slots, List.forall_mem_cons, List.not_mem_nil] at hkey
    obtain ⟨h1, h2, -⟩ := hkey
    have hput : (setSchema exact).put (SetDraft.told set seen) key data =
        passOver (SetDraft.told set seen) data := by
      change SetDraft.put _ _ _ _ = _
      unfold SetDraft.put
      split <;> first | rfl | contradiction
    rw [hput, passOver_eq_ok.mpr ⟨hwhole, rfl⟩]
    simp [SetDraft.told, told_cons_of_ne, h1, h2]
  finish := by
    intro seen homitted
    simp only [ActionSet.slots, List.forall_mem_cons, List.not_mem_nil] at homitted
    obtain ⟨h1, h2, -⟩ := homitted
    simp only [setSchema, SetDraft.told, required_told h1, getD_told h2]
    rfl

def BindingDraft.told (binding : Binding) (seen : List String) : BindingDraft where
  name := Record.told seen "name" binding.name
  configFiles := Record.told seen "config_files" binding.configFiles

/-- Bindings are read from the members that their slots tell. -/
theorem bindingSchema_follows (binding : Binding) :
    bindingSchema.Follows binding.slots binding (BindingDraft.told binding) where
  empty := rfl
  put_slot := by
    intro slot hslot seen data hseen hgives hwhole
    simp only [Binding.slots, List.mem_cons, List.not_mem_nil, or_false] at hslot
    rcases hslot with rfl | rfl
    · exact (once_told _ hseen (asText_of_gives hgives)).trans
        (by simp [BindingDraft.told, told_cons_of_ne])
    · exact (once_told _ hseen (asTexts_of_gives hgives hwhole)).trans
        (by simp [BindingDraft.told, told_cons_of_ne])
  put_other := by
    intro key seen data hkey hwhole
    simp only [Binding.slots, List.forall_mem_cons, List.not_mem_nil] at hkey
    obtain ⟨h1, h2, -⟩ := hkey
    have hput : bindingSchema.put (BindingDraft.told binding seen) key data =
        passOver (BindingDraft.told binding seen) data := by
      change BindingDraft.put _ _ _ = _
      unfold BindingDraft.put
      split <;> first | rfl | contradiction
    rw [hput, passOver_eq_ok.mpr ⟨hwhole, rfl⟩]
    simp [BindingDraft.told, told_cons_of_ne, h1, h2]
  finish := by
    intro seen homitted
    simp only [Binding.slots, List.forall_mem_cons, List.not_mem_nil] at homitted
    obtain ⟨h1, h2, -⟩ := homitted
    simp only [bindingSchema, BindingDraft.told, required_told h1, required_told h2]
    rfl

def ModuleDraft.told (module : ModuleDef) (seen : List String) : ModuleDraft where
  datasetType := Record.told seen "dataset_type" module.datasetType
  imports := Record.told seen "imports" module.imports
  package := Record.told seen "package" module.package
  bindings := Record.told seen "action_config" module.bindings

/-- Modules are read from the members that their slots tell, and their bindings with them. -/
theorem moduleSchema_follows (exact : Bool) (module : ModuleDef) :
    (moduleSchema exact).Follows module.slots module (ModuleDraft.told module) where
  empty := rfl
  put_slot := by
    intro slot hslot seen data hseen hgives hwhole
    simp only [ModuleDef.slots, List.mem_cons, List.not_mem_nil, or_false] at hslot
    rcases hslot with rfl | rfl | rfl | rfl
    · exact (once_told _ hseen (asText_of_gives hgives)).trans
        (by simp [ModuleDraft.told, told_cons_of_ne])
    · exact (once_told _ hseen (asText_of_gives hgives)).trans
        (by simp [ModuleDraft.told, told_cons_of_ne])
    · exact (once_told _ hseen (asTexts_of_gives hgives hwhole)).trans
        (by simp [ModuleDraft.told, told_cons_of_ne])
    · exact (once_told _ hseen (asList_of_follows bindingSchema_follows exact hgives hwhole)).trans
        (by simp [ModuleDraft.told, told_cons_of_ne])
  put_other := by
    intro key seen data hkey hwhole
    simp only [ModuleDef.slots, List.forall_mem_cons, List.not_mem_nil] at hkey
    obtain ⟨h1, h2, h3, h4, -⟩ := hkey
    have hput : (moduleSchema exact).put (ModuleDraft.told module seen) key data =
        passOver (ModuleDraft.told module seen) data := by
      change ModuleDraft.put _ _ _ _ = _
      unfold ModuleDraft.put
      split <;> first | rfl | contradiction
    rw [hput, passOver_eq_ok.mpr ⟨hwhole, rfl⟩]
    simp [ModuleDraft.told, told_cons_of_ne, h1, h2, h3, h4]
  finish := by
    intro seen homitted
    simp only [ModuleDef.slots, List.forall_mem_cons, List.not_mem_nil] at homitted
    obtain ⟨h1, h2, h3, h4, -⟩ := homitted
    simp only [moduleSchema, ModuleDraft.told, required_told h1, required_told h2, getD_told h3,
      getD_told h4]
    rfl

/-! ## Members that must be there -/

/-- Data from which no parameter is read, for want of a member. -/
def IncompleteParam (data : Data) : Prop :=
  data.Lacks "name" ∨ data.Lacks "type"

/-- An action lacks a member, or one of its parameters does. -/
def IncompleteAction (data : Data) : Prop :=
  data.Lacks "id" ∨ data.Lacks "expr" ∨
    data.Within (actionSchema true).keys "params" IncompleteParam

def IncompleteSet (data : Data) : Prop :=
  data.Lacks "definitions" ∨ data.Within (setSchema true).keys "definitions" IncompleteAction

def IncompleteBinding (data : Data) : Prop :=
  data.Lacks "name" ∨ data.Lacks "config_files"

def IncompleteModule (data : Data) : Prop :=
  data.Lacks "dataset_type" ∨ data.Lacks "package" ∨
    data.Within (moduleSchema true).keys "action_config" IncompleteBinding

/-- Whether a member that must be there is known. -/
def ParamDraft.knows (draft : ParamDraft) : String → Bool
  | "name" => draft.name.isSome
  | "type" => draft.type.isSome
  | _ => false

/-- Nothing but its own member makes the name or the type of a parameter known. -/
theorem paramSchema_requires {key : String} (hkey : key = "name" ∨ key = "type") :
    paramSchema.Requires key fun draft => draft.knows key = true where
  empty := by
    rcases hkey with rfl | rfl <;> exact nofun
  put := by
    intro before other value after h hknown
    refine or_iff_not_imp_right.mpr fun hother => ?_
    change ParamDraft.put before other value = .ok after at h
    unfold ParamDraft.put at h
    rcases hkey with rfl | rfl <;> split at h <;> first
      | exact absurd rfl hother
      | (obtain ⟨-, rfl⟩ := passOver_eq_ok.mp h; exact hknown)
      | (obtain ⟨_, -, h⟩ := bind_eq_ok_iff.mp h; cases h; exact hknown)
  finish := by
    intro missing draft record h
    obtain ⟨name, hname, h⟩ := bind_eq_ok_iff.mp h
    obtain ⟨type, htype, h⟩ := bind_eq_ok_iff.mp h
    rcases hkey with rfl | rfl
    · exact required_eq_ok hname
    · exact required_eq_ok htype

/-- Whether a member that must be there is known. -/
def ActionDraft.knows (draft : ActionDraft) : String → Bool
  | "id" => draft.id.isSome
  | "expr" => draft.expr.isSome
  | _ => false

/-- Nothing but its own member makes the id or the expression of an action known. -/
theorem actionSchema_requires (exact : Bool) {key : String} (hkey : key = "id" ∨ key = "expr") :
    (actionSchema exact).Requires key fun draft => draft.knows key = true where
  empty := by
    rcases hkey with rfl | rfl <;> exact nofun
  put := by
    intro before other value after h hknown
    refine or_iff_not_imp_right.mpr fun hother => ?_
    change ActionDraft.put exact before other value = .ok after at h
    unfold ActionDraft.put at h
    rcases hkey with rfl | rfl <;> split at h <;> first
      | exact absurd rfl hother
      | (obtain ⟨-, rfl⟩ := passOver_eq_ok.mp h; exact hknown)
      | (obtain ⟨_, -, h⟩ := bind_eq_ok_iff.mp h; cases h; exact hknown)
  finish := by
    intro missing draft record h
    obtain ⟨id, hid, h⟩ := bind_eq_ok_iff.mp h
    obtain ⟨expr, hexpr, h⟩ := bind_eq_ok_iff.mp h
    rcases hkey with rfl | rfl
    · exact required_eq_ok hid
    · exact required_eq_ok hexpr

/-- Whether a member that must be there is known. -/
def SetDraft.knows (draft : SetDraft) : String → Bool
  | "definitions" => draft.definitions.isSome
  | _ => false

theorem setSchema_requires (exact : Bool) {key : String} (hkey : key = "definitions") :
    (setSchema exact).Requires key fun draft => draft.knows key = true where
  empty := by
    subst hkey
    exact nofun
  put := by
    intro before other value after h hknown
    refine or_iff_not_imp_right.mpr fun hother => ?_
    change SetDraft.put exact before other value = .ok after at h
    unfold SetDraft.put at h
    subst hkey
    split at h <;> first
      | exact absurd rfl hother
      | (obtain ⟨-, rfl⟩ := passOver_eq_ok.mp h; exact hknown)
      | (obtain ⟨_, -, h⟩ := bind_eq_ok_iff.mp h; cases h; exact hknown)
  finish := by
    intro missing draft record h
    obtain ⟨definitions, hdefinitions, h⟩ := bind_eq_ok_iff.mp h
    subst hkey
    exact required_eq_ok hdefinitions

/-- Whether a member that must be there is known. -/
def BindingDraft.knows (draft : BindingDraft) : String → Bool
  | "name" => draft.name.isSome
  | "config_files" => draft.configFiles.isSome
  | _ => false

theorem bindingSchema_requires {key : String} (hkey : key = "name" ∨ key = "config_files") :
    bindingSchema.Requires key fun draft => draft.knows key = true where
  empty := by
    rcases hkey with rfl | rfl <;> exact nofun
  put := by
    intro before other value after h hknown
    refine or_iff_not_imp_right.mpr fun hother => ?_
    change BindingDraft.put before other value = .ok after at h
    unfold BindingDraft.put at h
    rcases hkey with rfl | rfl <;> split at h <;> first
      | exact absurd rfl hother
      | (obtain ⟨-, rfl⟩ := passOver_eq_ok.mp h; exact hknown)
      | (obtain ⟨_, -, h⟩ := bind_eq_ok_iff.mp h; cases h; exact hknown)
  finish := by
    intro missing draft record h
    obtain ⟨name, hname, h⟩ := bind_eq_ok_iff.mp h
    obtain ⟨configFiles, hconfigFiles, h⟩ := bind_eq_ok_iff.mp h
    rcases hkey with rfl | rfl
    · exact required_eq_ok hname
    · exact required_eq_ok hconfigFiles

/-- Whether a member that must be there is known. -/
def ModuleDraft.knows (draft : ModuleDraft) : String → Bool
  | "dataset_type" => draft.datasetType.isSome
  | "package" => draft.package.isSome
  | _ => false

/-- Nothing but its own member makes the dataset type or the package of a module known. -/
theorem moduleSchema_requires (exact : Bool) {key : String}
    (hkey : key = "dataset_type" ∨ key = "package") :
    (moduleSchema exact).Requires key fun draft => draft.knows key = true where
  empty := by
    rcases hkey with rfl | rfl <;> exact nofun
  put := by
    intro before other value after h hknown
    refine or_iff_not_imp_right.mpr fun hother => ?_
    change ModuleDraft.put exact before other value = .ok after at h
    unfold ModuleDraft.put at h
    rcases hkey with rfl | rfl <;> split at h <;> first
      | exact absurd rfl hother
      | (obtain ⟨-, rfl⟩ := passOver_eq_ok.mp h; exact hknown)
      | (obtain ⟨_, -, h⟩ := bind_eq_ok_iff.mp h; cases h; exact hknown)
  finish := by
    intro missing draft record h
    obtain ⟨datasetType, hdatasetType, h⟩ := bind_eq_ok_iff.mp h
    obtain ⟨package, hpackage, h⟩ := bind_eq_ok_iff.mp h
    rcases hkey with rfl | rfl
    · exact required_eq_ok hdatasetType
    · exact required_eq_ok hpackage

variable {exact : Bool} {data : Data}

theorem not_incompleteParam {param : Param} (h : data.asRecord exact paramSchema = .ok param) :
    ¬ IncompleteParam data := by
  rintro (hname | htype)
  · exact (paramSchema_requires (.inl rfl)).not_lacks h hname
  · exact (paramSchema_requires (.inr rfl)).not_lacks h htype

/-- An action that is read has all its members, and so has each of its parameters. -/
theorem not_incompleteAction {action : Action}
    (h : data.asRecord exact (actionSchema exact) = .ok action) : ¬ IncompleteAction data := by
  rintro (hid | hexpr | hparams)
  · exact (actionSchema_requires exact (.inl rfl)).not_lacks h hid
  · exact (actionSchema_requires exact (.inr rfl)).not_lacks h hexpr
  · refine not_within (Data.asRecord exact paramSchema) h (fun before value after hput => ?_)
      (fun _ _ => not_incompleteParam) hparams
    obtain ⟨params, hparams, -⟩ := bind_eq_ok_iff.mp hput
    exact once_eq_ok hparams

/-- An action set that is read has its definitions, and each of them is complete. -/
theorem not_incompleteSet {set : ActionSet} (h : data.asRecord exact (setSchema exact) = .ok set) :
    ¬ IncompleteSet data := by
  rintro (hlacks | hdefinitions)
  · exact (setSchema_requires exact rfl).not_lacks h hlacks
  · refine not_within (Data.asRecord exact (actionSchema exact)) h
      (fun before value after hput => ?_) (fun _ _ => not_incompleteAction) hdefinitions
    obtain ⟨definitions, hdefinitions, -⟩ := bind_eq_ok_iff.mp hput
    exact once_eq_ok hdefinitions

theorem not_incompleteBinding {binding : Binding}
    (h : data.asRecord exact bindingSchema = .ok binding) : ¬ IncompleteBinding data := by
  rintro (hname | hfiles)
  · exact (bindingSchema_requires (.inl rfl)).not_lacks h hname
  · exact (bindingSchema_requires (.inr rfl)).not_lacks h hfiles

/-- A module that is read has all its members, and so has each of its bindings. -/
theorem not_incompleteModule {module : ModuleDef}
    (h : data.asRecord exact (moduleSchema exact) = .ok module) : ¬ IncompleteModule data := by
  rintro (htype | hpackage | hbindings)
  · exact (moduleSchema_requires exact (.inl rfl)).not_lacks h htype
  · exact (moduleSchema_requires exact (.inr rfl)).not_lacks h hpackage
  · refine not_within (Data.asRecord exact bindingSchema) h (fun before value after hput => ?_)
      (fun _ _ => not_incompleteBinding) hbindings
    obtain ⟨bindings, hbindings, -⟩ := bind_eq_ok_iff.mp hput
    exact once_eq_ok hbindings

end Record

end ActionUnits
