/-!
# Faults

What can go wrong while a statement is set up or rendered, and the text that
reports it.
-/

namespace BoundSql

inductive Fault where
  | noKind (table : String)
  | emptyTable
  | invalidDirection (given : String)
  | unsupported (reason : String)
  deriving DecidableEq, Repr

namespace Fault

def message : Fault → String
  | noKind table => "No statement kind selected for table '" ++ table ++ "'"
  | emptyTable => "Table name cannot be empty"
  | invalidDirection given =>
      "Invalid order direction: '" ++ given ++ "'. Expected: ASC or DESC"
  | unsupported reason => "Unsupported value: " ++ reason

def isNoKind : Fault → Bool
  | noKind _ => true
  | _ => false

end Fault

end BoundSql
