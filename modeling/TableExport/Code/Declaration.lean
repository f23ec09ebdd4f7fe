import TableExport.Text.Lines

/-!
# Declarations

Classes, structures and enumerations of C#, and the text of a file of them. All lines end in
carriage return and line feed.

* `Declaration.render` writes a declaration.
* `CodeFile.render` writes a file, with a blank line between declarations.
-/

namespace TableExport

/-- A field of a class or structure. -/
structure ObjectMember where
  name : String
  typeName : String
  isArray : Bool
  comment : Option String
  deriving DecidableEq

/-- A constant of an enumeration. -/
structure EnumMember where
  name : String
  comment : Option String
  deriving DecidableEq

/-- A declaration of a type. -/
inductive Declaration
  | object (name : String) (comment : Option String) (isStruct : Bool)
    (members : List ObjectMember)
  | enumeration (name : String) (comment : Option String) (members : List EnumMember)
  deriving DecidableEq

/-- A generated file. -/
structure CodeFile where
  name : String
  declarations : List Declaration
  deriving DecidableEq

/-- The end of a line. -/
def lineEnd : String := "\r\n"

/-- The blanks in front of a line at a depth. -/
def codeIndent (depth : Nat) : String := String.ofList (List.replicate (4 * depth) ' ')

/-- A line at a depth. -/
def codeLine (depth : Nat) (text : String) : String := codeIndent depth ++ text ++ lineEnd

/-- A comment, one line for each of its lines. -/
def renderComment (depth : Nat) (comment : String) : String :=
  codeLine depth "/// <summary>" ++
    String.join ((lines comment).map fun line => codeLine depth ("/// " ++ line)) ++
    codeLine depth "/// </summary>"

/-- A comment that may be missing. -/
def renderComment? (depth : Nat) : Option String → String
  | some comment => renderComment depth comment
  | none => ""

/-- A member: its comment and its line. -/
structure MemberLine where
  comment : Option String
  text : String

/-- The line of a field. -/
def ObjectMember.line (member : ObjectMember) : MemberLine :=
  let type := if member.isArray then "List<" ++ member.typeName ++ ">" else member.typeName
  ⟨member.comment, "public " ++ type ++ " " ++ member.name ++ ";"⟩

/-- The line of a constant. -/
def EnumMember.line (member : EnumMember) : MemberLine := ⟨member.comment, member.name ++ ","⟩

/-- Members one after the other, where `commented` says whether the one before has a comment. A
blank line stands between two members of which one has a comment. -/
def renderMembers (depth : Nat) (commented : Option Bool) : List MemberLine → String
  | [] => ""
  | member :: rest =>
    let gap := match commented with
      | some before => if before || member.comment.isSome then lineEnd else ""
      | none => ""
    gap ++ renderComment? depth member.comment ++ codeLine depth member.text ++
      renderMembers depth (some member.comment.isSome) rest

namespace Declaration

/-- The name that is declared. -/
def name : Declaration → String
  | .object name .. => name
  | .enumeration name .. => name

/-- What is said about the declaration. -/
def comment : Declaration → Option String
  | .object _ comment .. => comment
  | .enumeration _ comment _ => comment

/-- The line that opens a declaration. -/
def header : Declaration → String
  | .object name _ isStruct _ =>
    "public " ++ (if isStruct then "struct" else "class") ++ " " ++ name
  | .enumeration name _ _ => "public enum " ++ name

/-- The lines of the members. -/
def memberLines : Declaration → List MemberLine
  | .object _ _ _ members => members.map ObjectMember.line
  | .enumeration _ _ members => members.map EnumMember.line

/-- The text of a declaration at a depth. -/
def render (depth : Nat) (declaration : Declaration) : String :=
  renderComment? depth declaration.comment ++ codeLine depth declaration.header ++
    codeLine depth "\x7b" ++ renderMembers (depth + 1) none declaration.memberLines ++
    codeLine depth "\x7d"

end Declaration

/-- The text of a file. -/
def CodeFile.render (file : CodeFile) : String :=
  codeLine 0 "using System.Collections.Generic;" ++ lineEnd ++
    lineEnd.intercalate (file.declarations.map (Declaration.render 0))

end TableExport
