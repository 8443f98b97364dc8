import MethodCode.FormatTable
import MethodCode.Opcode.Standard

/-! The table of the standard instruction set. Main statement: the standard definitions are sound, so
they make this table. -/

namespace MethodCode.FormatTable

/-- The table that the standard definitions make. -/
def standard : FormatTable :=
  match ofDefinitions OpcodeDefinition.standard with
  | .ok t => t
  | .error _ => empty

private theorem isOk_ofDefinitions_standard : (ofDefinitions OpcodeDefinition.standard).isOk = true := by
  decide +kernel

theorem ofDefinitions_standard : ofDefinitions OpcodeDefinition.standard = .ok standard := by
  cases h : ofDefinitions OpcodeDefinition.standard with
  | ok t => simp [standard, h]
  | error e =>
    have hok := isOk_ofDefinitions_standard
    rw [h] at hok
    cases hok

end MethodCode.FormatTable
