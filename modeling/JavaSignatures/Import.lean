import JavaSignatures.Name

set_option autoImplicit false

/-!
# The package and imports of a source file

An `ImportScope` gives a simple type name its qualified form: the first import that ends with the
name, else the implicit package, else the file's own package.
-/

namespace JavaSignatures

/-- The package of a source file and its imports of single types. -/
structure ImportScope where
  package : Option String := none
  imports : List String := []
  deriving DecidableEq, Repr, Inhabited

namespace ImportScope

/-- The types of the language itself; they have no qualified form. -/
def primitives : List String :=
  ["boolean", "byte", "char", "short", "int", "long", "float", "double", "void", "var"]

/-- The types of the implicit package that are known by name. -/
def implicitTypes : List String :=
  ["AutoCloseable", "Boolean", "Byte", "CharSequence", "Character", "Class", "ClassLoader",
    "Cloneable", "Comparable", "Deprecated", "Double", "Enum", "Error", "Exception", "Float",
    "FunctionalInterface", "IllegalArgumentException", "IllegalStateException",
    "IndexOutOfBoundsException", "Integer", "InterruptedException", "Iterable", "Long", "Math",
    "NullPointerException", "Number", "Object", "Override", "Process", "Record", "Runnable",
    "Runtime", "RuntimeException", "SafeVarargs", "Short", "StackTraceElement", "String",
    "StringBuffer", "StringBuilder", "SuppressWarnings", "System", "Thread", "ThreadLocal",
    "Throwable", "UnsupportedOperationException", "Void"]

/-- The name of a type declared directly in the package. -/
def inPackage (scope : ImportScope) (name : String) : String :=
  match scope.package with
  | none => name
  | some package => if package.isEmpty then name else package ++ "." ++ name

/-- The qualified form of a type name.  A primitive type and a text that is no identifier stay as
they are. -/
def resolve (scope : ImportScope) (name : String) : String :=
  if primitives.contains name || !Name.isSimple name then name
  else
    match scope.imports.find? fun path => Name.hasLast path name with
    | some path => path
    | none =>
      if implicitTypes.contains name then Name.implicitPackage ++ name
      else scope.inPackage name

theorem resolve_of_primitive (scope : ImportScope) {name : String}
    (h : name ∈ primitives) : scope.resolve name = name := by
  simp [resolve, h]

theorem resolve_of_not_isSimple (scope : ImportScope) {name : String}
    (h : Name.isSimple name = false) : scope.resolve name = name := by
  simp [resolve, h]

end ImportScope

end JavaSignatures
