import JavaSignatures.Comment.Description
import JavaSignatures.OrderedMap
import JavaSignatures.Rendering

set_option autoImplicit false

/-!
# Signatures

A method's signature is one line, `public <result> <name>(<type> <parameter>, …)`, with the types
and descriptions of its parameters and a description of the method beside it.
-/

namespace JavaSignatures

/-- The signature of one method. -/
structure Signature where
  methodName : String
  text : String
  /-- the descriptions of the parameters -/
  parameterDocs : OrderedMap String := .empty
  /-- the types of the parameters -/
  parameterTypes : OrderedMap String := .empty
  /-- one line on the method, possibly empty -/
  description : String := ""
  deriving DecidableEq, Repr, Inhabited

/-- How signatures are written: their types and their descriptions. -/
structure Style where
  rendering : Rendering := {}
  describer : Describer := {}

namespace Style

instance : Inhabited Style := ⟨{}⟩

end Style

namespace Signature

/-- The line of a signature. -/
def line (result name : String) (parameters : List (String × String)) : String :=
  "public " ++ result ++ " " ++ name ++ "(" ++
    ", ".intercalate (parameters.map fun (parameter, type) => type ++ " " ++ parameter) ++ ")"

/-- The result type of a method.  It is looked up with the target as the outermost declaration, so
a type nested in an enclosing declaration is written without the path through that declaration. -/
def resultType (style : Style) (target : Declaration) (method : Method) : String :=
  let rendered := style.rendering.render ⟨target, target, method⟩ method.returnType false
  if rendered.isEmpty then "void" else rendered

/-- The parameters of a method, each with its type. -/
def typedParameters (style : Style) (root target : Declaration) (method : Method) :
    List (String × String) :=
  method.parameters.map fun parameter =>
    (parameter.name,
      style.rendering.render ⟨root, target, method⟩ parameter.type parameter.varargs)

/-- The parameters of a method, each with its description. -/
def describedParameters (style : Style) (method : Method) : List (String × String) :=
  method.parameters.map fun parameter =>
    (parameter.name, style.describer.parameterDoc method.parameterTags parameter.name)

/-- The signature of a method of the target, whatever its kind and access. -/
def ofMethod (style : Style) (root target : Declaration) (method : Method) : Signature :=
  let types := typedParameters style root target method
  { methodName := method.name
    text := line (resultType style target method) method.name types
    parameterDocs := OrderedMap.ofList (describedParameters style method)
    parameterTypes := OrderedMap.ofList types
    description := style.describer.headline (method.comment.map DocComment.raw) }

/-- The signatures of the methods that the target's kind accepts, in the order of the methods. -/
def ofTarget (style : Style) (root target : Declaration) : List Signature :=
  (target.methods.filter target.kind.accepts).map (ofMethod style root target)

theorem mem_ofTarget {style : Style} {root target : Declaration} {signature : Signature} :
    signature ∈ ofTarget style root target ↔
      ∃ method ∈ target.methods, target.kind.accepts method = true ∧
        ofMethod style root target method = signature := by
  simp [ofTarget, and_assoc]

end Signature

end JavaSignatures
