import StateFlow.Json.Printer
import StateFlow.Path.Text

/-! # Parameter templates

The input of a task, written as an object. A member whose name ends in `.$` takes its value from the
document, at the path it holds, under the name without that ending; everything else is copied. -/

namespace StateFlow

/-- A compiled template. -/
inductive Template where
  | literal (value : Json)
  | reference (path : Path)
  | object (members : List (String × Template))
  | array (items : List Template)

/-- Why a template does not compile. -/
inductive TemplateError where
  | notPathText (key : String) (value : Json)
  | badPath (key : String) (cause : PathError)
  | emptyName (key : String)
  | repeatedName (name : String)

namespace TemplateError

def message : TemplateError → String
  | notPathText key value => "'" ++ key ++ "' must be a path string, got " ++ value.compact
  | badPath key cause => "'" ++ key ++ "': " ++ cause.message
  | emptyName key => "'" ++ key ++ "' has an empty field name"
  | repeatedName name => "field '" ++ name ++ "' is defined more than once"

end TemplateError

/-- A path that does not resolve, and the name of the member it was meant for. -/
structure Unresolved where
  key : String
  path : Path
deriving DecidableEq

namespace Template

/-- The name of a member that holds a path. -/
def referenceName? (key : String) : Option String :=
  match key.toList.reverse with
  | '$' :: '.' :: rest => some (String.ofList rest.reverse)
  | _ => none

/-- The path of a member that holds one. -/
def ofReference (key : String) : Json → Except TemplateError Template
  | .string text =>
    match Path.parse text with
    | .ok path => .ok (reference path)
    | .error cause => .error (.badPath key cause)
  | value => .error (.notPathText key value)

mutual

/-- Compile any part of a template. -/
def ofJson : Json → Except TemplateError Template
  | .object members => (ofMembers [] members).map object
  | .array items => (ofItems items).map array
  | scalar => .ok (literal scalar)
termination_by structural document => document

/-- Compile the members of an object; `used` are the names of those in front. -/
def ofMembers (used : List String) :
    List (String × Json) → Except TemplateError (List (String × Template))
  | [] => .ok []
  | member :: rest => do
    let (name, template) ← ofMember member
    if name = "" then .error (.emptyName member.1)
    else if name ∈ used then .error (.repeatedName name)
    else
      let others ← ofMembers (name :: used) rest
      return (name, template) :: others
termination_by structural members => members

def ofMember : String × Json → Except TemplateError (String × Template)
  | (key, value) =>
    match referenceName? key with
    | some name => (ofReference key value).map fun template => (name, template)
    | none => (ofJson value).map fun template => (key, template)
termination_by structural member => member

def ofItems : List Json → Except TemplateError (List Template)
  | [] => .ok []
  | item :: rest => do
    let template ← ofJson item
    let others ← ofItems rest
    return template :: others
termination_by structural items => items

end

/-- Compile a template: the members of an object in the order of their keys. -/
def compile (members : Entries Json) : Except TemplateError Template :=
  (ofMembers [] members).map object

mutual

/-- The value of a template in a document; `key` is the name of the innermost member around it. -/
def resolveAt (document : Json) (key : String) : Template → Except Unresolved Json
  | literal value => .ok value
  | reference path =>
    match path.get? document with
    | some value => .ok value
    | none => .error ⟨key, path⟩
  | object members => (resolveMembers document members).map .ofMembers
  | array items => (resolveItems document key items).map .array
termination_by structural template => template

def resolveMembers (document : Json) :
    List (String × Template) → Except Unresolved (List (String × Json))
  | [] => .ok []
  | member :: rest => do
    let value ← resolveMember document member
    let others ← resolveMembers document rest
    return value :: others
termination_by structural members => members

def resolveMember (document : Json) : String × Template → Except Unresolved (String × Json)
  | (name, template) => (template.resolveAt document name).map fun value => (name, value)
termination_by structural member => member

def resolveItems (document : Json) (key : String) :
    List Template → Except Unresolved (List Json)
  | [] => .ok []
  | item :: rest => do
    let value ← item.resolveAt document key
    let others ← resolveItems document key rest
    return value :: others
termination_by structural items => items

end

/-- The value of a template in a document, or the first path that does not resolve. -/
def resolve (template : Template) (document : Json) : Except Unresolved Json :=
  template.resolveAt document ""

mutual

/-- The paths that a template reads, in order. -/
def reads : Template → List Path
  | literal _ => []
  | reference path => [path]
  | object members => readsMembers members
  | array items => readsItems items
termination_by structural template => template

def readsMembers : List (String × Template) → List Path
  | [] => []
  | member :: rest => readsMember member ++ readsMembers rest
termination_by structural members => members

def readsMember : String × Template → List Path
  | (_, template) => template.reads
termination_by structural member => member

def readsItems : List Template → List Path
  | [] => []
  | item :: rest => item.reads ++ readsItems rest
termination_by structural items => items

end

end Template

end StateFlow
