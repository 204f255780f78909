/-!
# Kinds of statements

The four kinds of statements over one table, with the keyword that names each.
-/

namespace BoundSql

inductive Kind where
  | select
  | insert
  | update
  | delete
  deriving DecidableEq, Repr

namespace Kind

def keyword : Kind → String
  | select => "SELECT"
  | insert => "INSERT"
  | update => "UPDATE"
  | delete => "DELETE"

end Kind

end BoundSql
