import ItemShape.Schema.Props
import ItemShape.Value.Document

/-!
# ItemShape.Schema.Validator

Validators that are written down as fragments of JSON Schema.

How fragments are read is left open: a `FragmentCompiler` makes of a fragment what judges documents,
or says what is wrong with it. Everything that decodes definitions takes one, and no assumptions
about it are needed.
-/

namespace ItemShape

/-- Judges documents: the first error of a document is the pointer to its place, and its text. -/
abbrev Judge : Type :=
  Json → Option (String × String)

/-- Reads fragments. It is inferred, so that it is not named at every step of decoding. -/
class FragmentCompiler where
  compile : Json → Except String Judge

/-- The document form of a value is judged. A rejection says where in the document the error is,
unless it is the document itself. -/
def Judge.validator (judge : Judge) : Validator :=
  fun value =>
    match judge value.toJson with
    | none => .valid
    | some (pointer, text) =>
      .invalid (some (if pointer.isEmpty then text else text ++ " at " ++ pointer))

/-- The validator that a fragment describes. -/
def Validator.ofFragment? [FragmentCompiler] (fragment : Json) : Except String Validator :=
  match FragmentCompiler.compile fragment with
  | .ok judge => .ok judge.validator
  | .error fault => .error fault

end ItemShape
