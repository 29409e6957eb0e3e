import BehaviorRegistrar.Command.Build
import BehaviorRegistrar.Command.Transform
import BehaviorRegistrar.Proofs.Json.Members

/-!
# Results of commands

A JSON result tells by its members whether its command failed, and how. A command that has a result
gives it as one line, or says in plain words what it says.
-/

namespace BehaviorRegistrar

theorem eq_ok_of_toOption {ε α : Type} {found : Except ε α} {value : α}
    (h : found.toOption = some value) : found = .ok value := by
  cases found with
  | error fault => cases h
  | ok own => rw [Option.some.inj h]

namespace Json

@[simp] theorem valuesOf_optionalMember {key name : String} (value : Option Json) :
    valuesOf key (Command.optionalMember name value) = if name = key then value.toList else [] := by
  cases value <;> simp [Command.optionalMember]

end Json

open Json

def Outcome.refusal (json : Bool) (result : Json) (message : String) (log : List Log.Event) :
    Outcome :=
  if json then .failed (Command.line result) log else .reported message log

def Outcome.finished (json : Bool) (result : Json) (text : String) (log : List Log.Event) :
    Outcome :=
  if json then .success (Command.line result) log else .success text log

namespace Command

/-- The members that describe a failure. -/
structure Failure.IsDescribed (failure : Failure) (details : List (String × Json)) : Prop where
  code : valuesOf "code" details = [.string failure.code.name]
  message : valuesOf "message" details = [.string failure.message]
  field : valuesOf "field" details = (failure.field.map .string).toList
  path : valuesOf "path" details = (failure.path.map fun path => .string path.text).toList

theorem Failure.exists_details (failure : Failure) :
    ∃ details, failure.toJson = .object details ∧ failure.IsDescribed details := by
  refine ⟨_, rfl, ?_, ?_, ?_, ?_⟩ <;> simp

/-- The members that tell how a command ended. -/
structure TellsEnd (failure : Option Failure) (members : List (String × Json)) : Prop where
  ok : valuesOf "ok" members = [.bool failure.isNone]
  error : valuesOf "error" members = (failure.map Failure.toJson).toList

theorem TransformResult.exists_members (result : TransformResult) :
    ∃ members, result.toJson = .object members ∧ TellsEnd result.failure members ∧
      valuesOf "code" members = (result.code.map .string).toList ∧
        valuesOf "size_bytes" members = [number result.size] := by
  refine ⟨_, rfl, ⟨?_, ?_⟩, ?_, ?_⟩ <;> simp

theorem BuildResult.exists_members (result : BuildResult) :
    ∃ members, result.toJson = .object members ∧ TellsEnd result.failure members := by
  refine ⟨_, rfl, ?_, ?_⟩ <;> simp

end Command

end BehaviorRegistrar
