import EntityQuery.Remote.Filter
import EntityQuery.SelectTree

/-!
# Selections of remote requests

A selection is a select tree in the words of the remote service. Its text lists names
between commas; related records with more than their identity carry a select list and,
if needed, an expand list of their own in parentheses.
-/

namespace EntityQuery.Remote

/-- The wanted names of a type and the selections of its related records. A selection
without anything stands for the identity alone. -/
structure Selection where
  /-- The remote names in order. -/
  names : List String
  /-- The selections of the related records, by remote name. -/
  related : List (String × Selection)
  deriving Repr

namespace Selection

/-- The select list of a selection. -/
def selectText (selection : Selection) : String := String.intercalate "," selection.names

/-- The options of related records behind their name. -/
def optionsText (paramPrefix select expand : String) : String :=
  let options := paramPrefix ++ "select=" ++ select
  if expand.isEmpty then options else options ++ ";" ++ paramPrefix ++ "expand=" ++ expand

mutual

/-- One entry of an expand list. -/
def entryText (paramPrefix : String) (name : String) : Selection → String
  | ⟨[], []⟩ => name
  | ⟨names, related⟩ =>
    name ++ "(" ++ optionsText paramPrefix (String.intercalate "," names)
      (String.intercalate "," (entryTexts paramPrefix related)) ++ ")"
termination_by structural selection => selection

/-- The entries of an expand list. -/
def entryTexts (paramPrefix : String) : List (String × Selection) → List String
  | [] => []
  | (name, selection) :: rest => entryText paramPrefix name selection :: entryTexts paramPrefix rest
termination_by structural related => related

end

/-- The expand list of a selection. -/
def expandText (paramPrefix : String) (selection : Selection) : String :=
  String.intercalate "," (entryTexts paramPrefix selection.related)

end Selection

namespace Context

/-- The remote names of fields of a type. -/
def remoteNames (context : Context) (entityType : String) (names : List String) :
    Except Fault (List String) :=
  names.mapM fun name => return context.remoteName (← context.schema.resolve entityType name)

mutual

/-- The selection of a tree. -/
def selection (context : Context) : SelectTree → Except Fault Selection
  | ⟨entityType, _, select, expand, _⟩ => do
    let names ← context.remoteNames entityType select
    return ⟨names, ← relatedSelections context entityType expand⟩
termination_by structural tree => tree

/-- The selections of the children of a tree. -/
def relatedSelections (context : Context) (entityType : String) :
    List (String × SelectTree) → Except Fault (List (String × Selection))
  | [] => .ok []
  | (name, child) :: rest => do
    let field ← context.schema.resolve entityType name
    let inner ← if child.isTrivial then pure ⟨[], []⟩ else selection context child
    return (context.remoteName field, inner) :: (← relatedSelections context entityType rest)
termination_by structural children => children

end

end Context

end EntityQuery.Remote
