import ActionUnits.Generator
import ActionUnits.Proofs.Outcome

/-! # What a generated unit is made of

Generating a unit succeeds exactly if its fragments read and its tokens can be
emitted; the name, the path and the content of the result are then fixed.
-/

namespace ActionUnits

namespace Logged

variable {ε φ α β : Type}

/-- The result of two steps depends on nothing that they report. -/
theorem result_bind (x : Logged ε α) (f : α → Logged ε β) :
    (x >>= f).result = x.result >>= fun a => (f a).result := by
  change (x.andThen f).result = _
  cases hresult : x.result with
  | ok a => rw [andThen_of_ok hresult]; rfl
  | error e => rw [andThen_of_error hresult]; rfl

@[simp] theorem result_pure (a : α) : (pure a : Logged ε α).result = .ok a := rfl

@[simp] theorem result_ofExcept (x : Except ε α) : (ofExcept x).result = x := rfl

@[simp] theorem result_report (events : List Event) :
    (report events : Logged ε Unit).result = .ok () := rfl

/-- Renaming an error touches the result only. -/
@[simp] theorem result_mapError (f : ε → φ) (x : Logged ε α) :
    (x.mapError f).result = x.result.mapError f := rfl

end Logged

namespace Generator

/-- Synthesis with its events has the result of synthesis without them. -/
theorem synthesize_result (set : ActionSet) (module : ModuleDef) (name : String) :
    (synthesize set module name).result = Synthesis.unit set module name := by
  simp only [synthesize, Logged.result_bind, Logged.result_ofExcept, Logged.result_report,
    Logged.result_pure]
  cases Synthesis.unit set module name <;> rfl

/-- The unit that generation gives, in terms of what was read and emitted. -/
theorem generateUnit_eq_ok_iff {generator : Generator} {set : ActionSet} {module : ModuleDef}
    {name : String} {unit : GeneratedUnit} :
    (generator.generateUnit set module name).result = .ok unit ↔
      ∃ source content, Synthesis.unit set module name = .ok source ∧
        generator.emitter.emit generator.config source = .ok content ∧
        unit = ⟨name, module.filePath name generator.emitter.extension, content⟩ := by
  simp only [generateUnit, Logged.result_bind, Logged.result_mapError, synthesize_result,
    Logged.result_ofExcept, Logged.result_report, Logged.result_pure, bind_eq_ok_iff,
    mapError_eq_ok_iff]
  simp [eq_comm]

/-- Generation of a unit fails where its fragments do not read, or else as its emission does. -/
theorem generateUnit_eq_error_iff {generator : Generator} {set : ActionSet} {module : ModuleDef}
    {name : String} {failure : Failure} :
    (generator.generateUnit set module name).result = .error failure ↔
      (∃ e, Synthesis.unit set module name = .error e ∧ .reported e = failure) ∨
        ∃ source, Synthesis.unit set module name = .ok source ∧
          generator.emitter.emit generator.config source = .error failure := by
  simp only [generateUnit, Logged.result_bind, Logged.result_mapError, synthesize_result,
    Logged.result_ofExcept, Logged.result_report, Logged.result_pure, bind_eq_error_iff,
    mapError_eq_ok_iff, mapError_eq_error_iff]
  simp

end Generator

end ActionUnits
