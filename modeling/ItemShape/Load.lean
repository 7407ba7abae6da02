import ItemShape.Definition
import ItemShape.FileTree

/-!
# ItemShape.Load

Documents and schemas from files. A file must be there, be readable as text and hold a document;
the error names the first of these that fails.
-/

namespace ItemShape

/-- The document in the file under a path. -/
def loadDocument (view : FileView) (path : String) : Except LoadError Json :=
  match view path with
  | none => .error (.fileNotFound path)
  | some (.directory _) => .error (.readError path .isDirectory)
  | some (.unreadable description) => .error (.readError path (.system description))
  | some (.file content) =>
    match String.fromUTF8? content with
    | none => .error (.readError path .notText)
    | some text => loadText text

/-- The schema that the file under a path defines. -/
def loadDefinition [FragmentCompiler] (view : FileView) (path : String) : Except LoadError Schema :=
  match loadDocument view path with
  | .error e => .error e
  | .ok document => Definition.decode document

end ItemShape
