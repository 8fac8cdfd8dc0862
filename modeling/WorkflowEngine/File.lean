import WorkflowEngine.Error

/-!
# Texts of files

The bytes of a file, absent if the file cannot be read, as a text.
-/

namespace WorkflowEngine.File

/-- The text of a file. -/
def text (bytes : Option ByteArray) : Except Error String :=
  match bytes with
  | none => .error (.file "no such file")
  | some bytes =>
    match String.fromUTF8? bytes with
    | none => .error (.file "the file is not a text")
    | some text => .ok text

/-- The text of a file is that of its bytes. -/
theorem text_eq_ok_iff {bytes : Option ByteArray} {s : String} :
    text bytes = .ok s ↔ ∃ b, bytes = some b ∧ String.fromUTF8? b = some s := by
  unfold text
  cases bytes with
  | none => simp
  | some b => cases h : String.fromUTF8? b <;> simp [h]

end WorkflowEngine.File
