/-!
# Data of records

What a configuration file says, before it is known which record it describes. A text may stop to
follow its format; its data then holds what comes before that place.
-/

namespace ActionUnits.Record

/-- The data of a configuration file. -/
inductive Data where
  | null
  | flag (value : Bool)
  | number
  /-- A text; `none` if it is written by codes that denote no text. -/
  | text (value : Option String)
  /-- A list; `closed` tells that it is read to its end. -/
  | list (elements : List Data) (closed : Bool)
  /-- Named members in order; `closed` tells that they are read to their end. -/
  | members (entries : List (Option String × Data)) (closed : Bool)
  /-- The place where the text stops to follow its format. -/
  | broken

namespace Data

mutual

/-- Whether data is read to its end, so that it can be passed over. -/
def isWhole : Data → Bool
  | .list elements closed => closed && allWhole elements
  | .members entries closed => closed && entriesWhole entries
  | .broken => false
  | _ => true

/-- Whether all elements are read to their ends. -/
def allWhole : List Data → Bool
  | [] => true
  | element :: elements => isWhole element && allWhole elements

/-- Whether all members are read to their ends. -/
def entriesWhole : List (Option String × Data) → Bool
  | [] => true
  | (_, value) :: entries => isWhole value && entriesWhole entries

end

end Data

end ActionUnits.Record
