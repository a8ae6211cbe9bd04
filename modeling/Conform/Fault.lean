import Conform.Source.FilePath

/-!
Why declarations cannot be turned into a validator. A value that does not conform is no fault: that
is an `Outcome`.
-/

namespace Conform

inductive Fault where
  /-- A name is used, and there is no file to look it up in. -/
  | missingFile (name : String)
  | fileNotFound (path : FilePath)
  | unreadableFile (path : FilePath) (reason : String)
  | undeclared (name : String) (file : FilePath)
  | unbalancedBraces (context : String)
  | unterminated (name : String) (file : FilePath)
  | emptyOperand (expr : String)
  | mixedConnectives (expr : String)
  | invalidField (member : String) (file : Option FilePath)
  | invalidExpression (expr : String)
  | parentNotRecord (parent child : String)
  | partialTarget (name : String)
  /-- A declaration needs itself before it is built. -/
  | recursiveAlias (name : String)
deriving DecidableEq, Repr

/-- A name as messages show it. -/
def quotedName (name : String) : String :=
  "\x60" ++ name ++ "\x60"

def Fault.message : Fault → String
  | missingFile name =>
    "type " ++ quotedName name ++ " is referenced without a file to resolve it from"
  | fileNotFound path => "file not found: " ++ path.text
  | unreadableFile path reason => "cannot read " ++ path.text ++ ": " ++ reason
  | undeclared name file => "cannot find a declaration of " ++ quotedName name ++ " in " ++ file.text
  | unbalancedBraces context => "mismatched braces while parsing " ++ context
  | unterminated name file =>
    "declaration of " ++ quotedName name ++ " in " ++ file.text ++ " is not terminated"
  | emptyOperand expr => "empty operand in logic expression " ++ quotedName expr
  | mixedConnectives expr =>
    "cannot mix " ++ quotedName "&" ++ " and " ++ quotedName "|" ++
      " at the same level after precedence merge: " ++ quotedName expr
  | invalidField member file =>
    "unrecognized field declaration " ++ quotedName member ++ " in " ++
      (file.map FilePath.text).getD "<inline>"
  | invalidExpression expr => "invalid type expression " ++ quotedName expr
  | parentNotRecord parent child =>
    quotedName child ++ " extends " ++ quotedName parent ++ ", which is not an interface"
  | partialTarget name =>
    quotedName ("Partial<" ++ name ++ ">") ++ " requires an interface or object type"
  | recursiveAlias name =>
    quotedName name ++ " refers to itself without an enclosing object or array"

end Conform
