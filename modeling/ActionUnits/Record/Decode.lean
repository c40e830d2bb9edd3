import ActionUnits.Action.Set
import ActionUnits.Error
import ActionUnits.Module.Definition
import ActionUnits.Record.Data

/-!
# Records from data

Reads action sets and modules from data. A record is given by named members in any order, or by a
list of its fields in a fixed order, at the end of which optional fields may be missing. Members of
other names are passed over. The first fault in the order of the data is reported; a missing member
is noticed at the end of its record.
-/

namespace ActionUnits.Record

/-- What data stands for, or why it stands for nothing. -/
abbrev Decoded (α : Type) := Except RecordFault α

/-! ## Values -/

def Data.asText : Data → Decoded String
  | .text (some value) => .ok value
  | _ => .error .malformed

def Data.asOptionalText : Data → Decoded (Option String)
  | .null => .ok none
  | data => data.asText.map some

def Data.asFlag : Data → Decoded Bool
  | .flag value => .ok value
  | _ => .error .malformed

def Data.asList {α : Type} (element : Data → Decoded α) : Data → Decoded (List α)
  | .list elements closed => do
    let values ← elements.mapM element
    if closed then return values else throw .malformed
  | _ => .error .malformed

def Data.asTexts (data : Data) : Decoded (List String) :=
  data.asList Data.asText

/-! ## Records -/

/-- How a record is read: what is known of it after each member, and what it is at the end. -/
structure Schema (δ ρ : Type) where
  /-- The names of the fields in order. -/
  keys : List String
  empty : δ
  /-- Takes one more member. -/
  put : δ → String → Data → Decoded δ
  /-- Ends the record; a missing field is a fault that depends on its name. -/
  finish : (String → RecordFault) → δ → Decoded ρ

/-- Reads a record. If `exact` holds, a list has no elements beyond the fields. -/
def Data.asRecord {δ ρ : Type} (exact : Bool) (schema : Schema δ ρ) : Data → Decoded ρ
  | .members entries closed => do
    let draft ← entries.foldlM (fun draft (entry : Option String × Data) =>
      match entry.1 with
      | some key => schema.put draft key entry.2
      | none => throw .malformed) schema.empty
    if closed then schema.finish .missingField draft else throw .malformed
  | .list elements closed => do
    let draft ← (schema.keys.zip elements).foldlM (fun draft (entry : String × Data) =>
      schema.put draft entry.1 entry.2) schema.empty
    if closed && !(exact && schema.keys.length < elements.length) then
      schema.finish (fun _ => .malformed) draft
    else throw .malformed
  | _ => throw .malformed

/-- Takes a member for the first time. -/
def once {α : Type} (known : Option α) (key : String) (value : Decoded α) : Decoded (Option α) :=
  match known with
  | some _ => .error (.duplicateField key)
  | none => value.map some

/-- A field that must be there. -/
def required {α : Type} (missing : String → RecordFault) (key : String) (known : Option α) :
    Decoded α :=
  match known with
  | some value => .ok value
  | none => .error (missing key)

/-- Passes a member over. -/
def passOver {δ : Type} (draft : δ) (value : Data) : Decoded δ :=
  if value.isWhole then .ok draft else .error .malformed

/-! ## Parameters -/

/-- What is known of a parameter. -/
structure ParamDraft where
  name : Option String := none
  type : Option String := none
  mappedName : Option (Option String) := none
  isRequired : Option Bool := none
  isSqlExpr : Option Bool := none
  isDatasetRef : Option Bool := none
  isDatasetRefList : Option Bool := none

/-- Takes a member of a parameter. -/
def ParamDraft.put (draft : ParamDraft) (key : String) (value : Data) : Decoded ParamDraft := do
  match key with
  | "name" => return { draft with name := ← once draft.name key value.asText }
  | "type" => return { draft with type := ← once draft.type key value.asText }
  | "mapped_name" =>
    return { draft with mappedName := ← once draft.mappedName key value.asOptionalText }
  | "is_required" => return { draft with isRequired := ← once draft.isRequired key value.asFlag }
  | "is_sql_expr" => return { draft with isSqlExpr := ← once draft.isSqlExpr key value.asFlag }
  | "is_dataset_ref" =>
    return { draft with isDatasetRef := ← once draft.isDatasetRef key value.asFlag }
  | "is_dataset_ref_list" =>
    return { draft with isDatasetRefList := ← once draft.isDatasetRefList key value.asFlag }
  | _ => passOver draft value

/-- How a parameter is read. -/
def paramSchema : Schema ParamDraft Param where
  keys := ["name", "type", "mapped_name", "is_required", "is_sql_expr", "is_dataset_ref",
    "is_dataset_ref_list"]
  empty := {}
  put := ParamDraft.put
  finish missing draft := do
    return {
      name := ← required missing "name" draft.name
      type := ← required missing "type" draft.type
      mappedName := draft.mappedName.getD none
      isRequired := draft.isRequired.getD false
      isSqlExpr := draft.isSqlExpr.getD false
      isDatasetRef := draft.isDatasetRef.getD false
      isDatasetRefList := draft.isDatasetRefList.getD false
    }

/-! ## Actions -/

/-- What is known of an action. -/
structure ActionDraft where
  id : Option String := none
  params : Option (List Param) := none
  expr : Option String := none
  isMultiOut : Option Bool := none
  description : Option (Option String) := none

/-- Takes a member of an action. -/
def ActionDraft.put (exact : Bool) (draft : ActionDraft) (key : String) (value : Data) :
    Decoded ActionDraft := do
  match key with
  | "id" => return { draft with id := ← once draft.id key value.asText }
  | "params" =>
    let params := value.asList (Data.asRecord exact paramSchema)
    return { draft with params := ← once draft.params key params }
  | "expr" => return { draft with expr := ← once draft.expr key value.asText }
  | "is_multi_out" => return { draft with isMultiOut := ← once draft.isMultiOut key value.asFlag }
  | "description" =>
    return { draft with description := ← once draft.description key value.asOptionalText }
  | _ => passOver draft value

/-- How an action is read. -/
def actionSchema (exact : Bool) : Schema ActionDraft Action where
  keys := ["id", "params", "expr", "is_multi_out", "description"]
  empty := {}
  put := ActionDraft.put exact
  finish missing draft := do
    return {
      id := ← required missing "id" draft.id
      expr := ← required missing "expr" draft.expr
      params := draft.params.getD []
      isMultiOut := draft.isMultiOut.getD false
      description := draft.description.getD none
    }

/-! ## Action sets -/

/-- What is known of an action set. -/
structure SetDraft where
  definitions : Option (List Action) := none
  imports : Option (List String) := none

/-- Takes a member of an action set. -/
def SetDraft.put (exact : Bool) (draft : SetDraft) (key : String) (value : Data) :
    Decoded SetDraft := do
  match key with
  | "definitions" =>
    let definitions := value.asList (Data.asRecord exact (actionSchema exact))
    return { draft with definitions := ← once draft.definitions key definitions }
  | "imports" => return { draft with imports := ← once draft.imports key value.asTexts }
  | _ => passOver draft value

def setSchema (exact : Bool) : Schema SetDraft ActionSet where
  keys := ["definitions", "imports"]
  empty := {}
  put := SetDraft.put exact
  finish missing draft := do
    return {
      definitions := ← required missing "definitions" draft.definitions
      imports := draft.imports.getD []
    }

/-! ## Modules -/

/-- What is known of a binding. -/
structure BindingDraft where
  name : Option String := none
  configFiles : Option (List String) := none

/-- Takes a member of a binding. -/
def BindingDraft.put (draft : BindingDraft) (key : String) (value : Data) :
    Decoded BindingDraft := do
  match key with
  | "name" => return { draft with name := ← once draft.name key value.asText }
  | "config_files" =>
    return { draft with configFiles := ← once draft.configFiles key value.asTexts }
  | _ => passOver draft value

/-- How a binding is read. -/
def bindingSchema : Schema BindingDraft Binding where
  keys := ["name", "config_files"]
  empty := {}
  put := BindingDraft.put
  finish missing draft := do
    return {
      name := ← required missing "name" draft.name
      configFiles := ← required missing "config_files" draft.configFiles
    }

/-- What is known of a module. -/
structure ModuleDraft where
  datasetType : Option String := none
  imports : Option (List String) := none
  package : Option String := none
  bindings : Option (List Binding) := none

/-- Takes a member of a module. -/
def ModuleDraft.put (exact : Bool) (draft : ModuleDraft) (key : String) (value : Data) :
    Decoded ModuleDraft := do
  match key with
  | "dataset_type" =>
    return { draft with datasetType := ← once draft.datasetType key value.asText }
  | "imports" => return { draft with imports := ← once draft.imports key value.asTexts }
  | "package" => return { draft with package := ← once draft.package key value.asText }
  | "action_config" =>
    let bindings := value.asList (Data.asRecord exact bindingSchema)
    return { draft with bindings := ← once draft.bindings key bindings }
  | _ => passOver draft value

/-- How a module is read. -/
def moduleSchema (exact : Bool) : Schema ModuleDraft ModuleDef where
  keys := ["dataset_type", "imports", "package", "action_config"]
  empty := {}
  put := ModuleDraft.put exact
  finish missing draft := do
    return {
      datasetType := ← required missing "dataset_type" draft.datasetType
      package := ← required missing "package" draft.package
      imports := draft.imports.getD []
      bindings := draft.bindings.getD []
    }

end ActionUnits.Record
