/-!
# Log events

What the library reports about its work, as data. Reporting never changes a result.
-/

namespace ActionUnits

/-- The weight of an event. -/
inductive Level where
  | trace
  | debug
  | info
  | warn
deriving DecidableEq

def Level.name : Level → String
  | .trace => "TRACE"
  | .debug => "DEBUG"
  | .info => "INFO"
  | .warn => "WARN"

/-- An event worth reporting. -/
inductive Event where
  | loadedActions (path : String) (definitions imports : Nat)
  | loadedModule (path package : String) (bindings : Nat)
  | expandedPattern (pattern : String) (matched : Nat)
  | mergedActions (left right merged : Nat)
  | duplicateId (registry id : String)
  | generatedUnit (unit path : String) (actions : Nat) (emitter : String)
  | skippedWrite (path : String)
  | wroteUnit (unit path : String)
deriving DecidableEq

/-- The value of a field of an event. -/
inductive FieldValue where
  | text (value : String)
  | count (value : Nat)

namespace Event

def level : Event → Level
  | .mergedActions _ _ _ => .trace
  | .loadedActions _ _ _ | .loadedModule _ _ _ | .expandedPattern _ _ | .skippedWrite _ => .debug
  | .generatedUnit _ _ _ _ | .wroteUnit _ _ => .info
  | .duplicateId _ _ => .warn

def message : Event → String
  | .loadedActions _ _ _ => "loaded action definitions"
  | .loadedModule _ _ _ => "loaded module definition"
  | .expandedPattern _ _ => "expanded config file pattern"
  | .mergedActions _ _ _ => "merged action definitions"
  | .duplicateId _ _ => "duplicate action id; the runtime will see ambiguous discriminators"
  | .generatedUnit _ _ _ _ => "generated unit"
  | .skippedWrite _ => "dry run, skipping write"
  | .wroteUnit _ _ => "wrote unit"

def fields : Event → List (String × FieldValue)
  | .loadedActions path definitions imports =>
    [("path", .text path), ("definitions", .count definitions), ("imports", .count imports)]
  | .loadedModule path package bindings =>
    [("path", .text path), ("package", .text package), ("bindings", .count bindings)]
  | .expandedPattern pattern matched => [("pattern", .text pattern), ("matched", .count matched)]
  | .mergedActions left right merged =>
    [("left", .count left), ("right", .count right), ("merged", .count merged)]
  | .duplicateId registry id => [("registry", .text registry), ("discriminator", .text id)]
  | .generatedUnit unit path actions emitter =>
    [("unit", .text unit), ("path", .text path), ("actions", .count actions),
     ("emitter", .text emitter)]
  | .skippedWrite path => [("path", .text path)]
  | .wroteUnit unit path => [("unit", .text unit), ("path", .text path)]

end Event

end ActionUnits
