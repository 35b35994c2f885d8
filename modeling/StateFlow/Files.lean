/-! # Files

What is found under the name of a file, and what the name says about it. -/

namespace StateFlow

/-- What is found under a name. -/
inductive FileContent where
  | missing
  /-- There is something, but no text can be read from it. -/
  | unreadable (reason : String)
  | text (content : String)
deriving DecidableEq

namespace FileContent

/-- The text, or why there is none. -/
def read : FileContent → Except String String
  | missing => .error "No such file or directory"
  | unreadable reason => .error reason
  | text content => .ok content

/-- What bytes stand for. -/
def ofBytes (bytes : ByteArray) : FileContent :=
  match String.fromUTF8? bytes with
  | some content => text content
  | none => unreadable "stream did not contain valid UTF-8"

end FileContent

/-- The steps of a name through directories. Steps that lead nowhere are left out. -/
def nameSteps (name : String) : List String :=
  (name.splitOn "/").filter fun step => step ≠ "" && step ≠ "."

/-- Files below one directory, each with the text in it. -/
abbrev Directory := List (String × String)

/-- What is found under a name below a directory. -/
def Directory.content (directory : Directory) (name : String) : FileContent :=
  let steps := nameSteps name
  if name = "" || name.startsWith "/" then .missing
  else match directory.find? fun file => nameSteps file.1 = steps with
    | some (_, text) => if name.endsWith "/" then .unreadable "Not a directory" else .text text
    | none =>
      if steps = [] || directory.any fun file => steps.isPrefixOf (nameSteps file.1) then
        .unreadable "Is a directory"
      else if directory.any fun file => (nameSteps file.1).isPrefixOf steps then
        .unreadable "Not a directory"
      else .missing

/-- The ending of a file name behind its last point. A point in front of the whole name starts no
ending. -/
def fileEnding? (name : String) : Option String :=
  let file := (name.toList.reverse.dropWhile (· = '/')).takeWhile (· ≠ '/')
  match file.dropWhile (· ≠ '.') with
  | [] | ['.'] => none
  | _ => if file = ['.', '.'] then none else some (String.ofList (file.takeWhile (· ≠ '.')).reverse)

end StateFlow
