import ItemShape.Value

/-!
# ItemShape.Schema.Context

What a link can see: the values already filled beside the linked attribute and, for each enclosing
map up to the item, the members already filled there.
-/

namespace ItemShape

/-- `ancestors` lists the members of the enclosing maps, nearest first. -/
structure LinkContext where
  siblings : List (String × Value)
  ancestors : List (List (String × Value))

namespace LinkContext

/-- The context of the children of a map, given the context of the map itself, if any. -/
def nested (scope : Option LinkContext) (siblings : List (String × Value)) : LinkContext :=
  match scope with
  | none => ⟨siblings, []⟩
  | some parent => ⟨siblings, parent.siblings :: parent.ancestors⟩

def get? (context : LinkContext) (name : String) : Option Value :=
  Entries.get? name context.siblings

/-- The context of the enclosing map. -/
def parent? (context : LinkContext) : Option LinkContext :=
  match context.ancestors with
  | [] => none
  | siblings :: rest => some ⟨siblings, rest⟩

/-- Members of the outermost map. -/
def root (context : LinkContext) : List (String × Value) :=
  context.ancestors.getLast?.getD context.siblings

/-- Nearest value of this name: a sibling, else a member of an enclosing map. -/
def lookup? (context : LinkContext) (name : String) : Option Value :=
  (context.siblings :: context.ancestors).findSome? (Entries.get? name)

end LinkContext
end ItemShape
