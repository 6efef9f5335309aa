namespace Lineage

/-!
# Joining paths
-/

/-- One path below another.  An absolute path stays what it is; a separator is put between two
    paths unless the first is empty or ends in one. -/
def joinPath (base path : String) : String :=
  if path.toList.head? == some '/' then path
  else if base.isEmpty || base.toList.getLast? == some '/' then base ++ path
  else base ++ "/" ++ path

end Lineage
