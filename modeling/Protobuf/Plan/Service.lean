import Protobuf.Plan.Types

/-!
# Plans of services

A method that fetches many items at once, named `Batch` and the item, gets an
accessor for one item, named `Get` and the item, if its request is a list of keys
and its response a list of items or a map from the keys to items. With a call
context, single requests of methods named `Get` are remembered per context.
-/

namespace Protobuf.Plan

open Protobuf.Schema
open Source

/-- How a method appears in the generated source. -/
structure MethodPlan where
  method : Method
  ident : Ident
  /-- Type of a request. -/
  input : Code
  /-- Type of a response. -/
  output : Code
  /-- Lines of documentation. -/
  docs : List String
  /-- Whether responses are remembered per context. -/
  memoized : Bool
  deriving DecidableEq

/-- Whether a method takes one request and gives one response. -/
def isUnary (m : Method) : Bool :=
  !m.clientStreaming && !m.serverStreaming

/-- The accessor for one item of a method that fetches many. -/
structure BatchPlan where
  methodIdent : Ident
  accessor : Ident
  /-- The name under which a context keeps the loader. -/
  identity : String
  /-- Identifier of the accessor's parameter. -/
  param : Ident
  /-- Type of the request. -/
  input : Code
  /-- The property of the request that lists the keys. -/
  inputField : Ident
  /-- The property of the response that holds the items. -/
  outputField : Ident
  keyType : GeneratedType
  valueType : GeneratedType
  /-- Whether the response is a map; if not, it is a list in the order of the keys. -/
  keyed : Bool

/-- The type that the accessor gives: with a map, an item can be missing. -/
def BatchPlan.output (b : BatchPlan) : Code :=
  if b.keyed then fill "::core::option::Option<$>" [b.valueType.toCode] else b.valueType.toCode

/-- How a service appears in the generated source. -/
structure ServicePlan where
  service : Service
  ident : Ident
  fullName : String
  methods : List MethodPlan
  batches : List BatchPlan

def methodIdent (style : MethodStyle) (name : String) : Except CompileError Ident :=
  match style with
  | .snake => ident name (Ident.escape? (Naming.snakeCase name))
  | .declared => ident name (Ident.escape? name)

/-- What follows a beginning of a name, if the name has that beginning. -/
def afterStart? (start name : String) : Option String :=
  if start.toList.isPrefixOf name.toList then
    some (String.ofList (name.toList.drop start.toList.length))
  else none

/-- Whether a name is `Get` and an item that starts with a capital letter. -/
def isGetName (name : String) : Bool :=
  match (afterStart? "Get" name).map String.toList with
  | some (c :: _) => 'A' ≤ c && c ≤ 'Z'
  | _ => false

def serviceName (package service : String) : String :=
  if package.isEmpty then service else package ++ "." ++ service

/-- Whether values can be keys of a loader: scalars that are no floating-point numbers, and
enums. -/
def isHashable : ValueKind → Bool
  | .scalar t => !t.isFloat
  | .enum .. => true
  | _ => false

namespace Scope

/-- The plan of the only field of a message, if it has one field and that is repeated. -/
def soleRepeated? (s : Scope) (message referencedBy : String) :
    Except CompileError (Option FieldPlan) := do
  let entry ← s.registry.resolve message referencedBy
  match entry.message?.map Message.fields with
  | some [field] =>
    if field.isRepeated then return some (← s.planField entry.ref.qualifiedName field)
    else return none
  | _ => return none

/-- The type of the items of a batch and whether they come in a map; none if the keys of the map
are not those of the request. -/
def batchItems? (s : Scope) (keyType : GeneratedType) (output : FieldPlan) :
    Except CompileError (Option (GeneratedType × Bool)) :=
  match output.layout with
  | .map _ key value => do
    let mapKey ← s.valueType key.kind false
    if render mapKey.toCode = render keyType.toCode then
      return some (← s.valueType value.kind false, true)
    else return none
  | _ => return some (← s.valueType output.kind output.boxed, false)

/-- The accessor of a method, given the plans of the keys and the items. -/
def accessorOf? (s : Scope) (service : Service) (fullName : String) (method : Method)
    (item : String) (input output : FieldPlan) : Except CompileError (Option BatchPlan) := do
  let identity := fullName ++ "." ++ method.name
  if !(input.layout matches .repeated) || !isHashable input.kind then return none
  let keyType ← s.valueType input.kind false
  match ← s.batchItems? keyType output with
  | none => return none
  | some (valueType, keyed) =>
    let accessor := "Get" ++ item
    if service.methods.any fun m => m.name == accessor then return none
    let entry ← s.registry.resolve method.input identity
    let param := Naming.singular input.field.name
    return some {
      methodIdent := ← methodIdent s.options.methods method.name
      accessor := ← methodIdent s.options.methods accessor
      identity
      param := ← ident param (Naming.fieldIdent? param)
      input := ← s.typePath entry.ref
      inputField := input.ident
      outputField := output.ident
      keyType
      valueType
      keyed }

/-- The accessor of a method, if it fetches many items at once. -/
def batchOf? (s : Scope) (service : Service) (fullName : String) (method : Method) :
    Except CompileError (Option BatchPlan) :=
  match afterStart? "Batch" method.name with
  | none => return none
  | some item => do
    let identity := fullName ++ "." ++ method.name
    if item.isEmpty || !isUnary method then return none
    match ← s.soleRepeated? method.input identity with
    | none => return none
    | some input =>
      match ← s.soleRepeated? method.output identity with
      | none => return none
      | some output => s.accessorOf? service fullName method item input output

def planMethod (s : Scope) (fullName : String) (method : Method) :
    Except CompileError MethodPlan := do
  let referencedBy := fullName ++ "." ++ method.name
  let input ← s.registry.resolve method.input referencedBy
  let output ← s.registry.resolve method.output referencedBy
  return {
    method
    ident := ← methodIdent s.options.methods method.name
    input := ← s.typePath input.ref
    output := ← s.typePath output.ref
    docs := s.comments.lines method.path
    memoized := s.options.context && isUnary method && isGetName method.name }

/-- Plan methods in turn, each with its accessor. -/
def planMethods (s : Scope) (service : Service) (fullName : String) :
    List Method → Except CompileError (List (MethodPlan × Option BatchPlan))
  | [] => return []
  | method :: methods => do
    let plan ← s.planMethod fullName method
    let batch ← if s.options.context then s.batchOf? service fullName method else pure none
    let rest ← s.planMethods service fullName methods
    return (plan, batch) :: rest

def planService (s : Scope) (package : String) (service : Service) :
    Except CompileError ServicePlan := do
  let fullName := serviceName package service.name
  let methods ← s.planMethods service fullName service.methods
  return {
    service
    ident := ← ident service.name (Ident.escape? service.name)
    fullName
    methods := methods.map fun m => m.1
    batches := methods.filterMap fun m => m.2 }

end Scope

end Protobuf.Plan
