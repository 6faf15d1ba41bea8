import Protobuf.Emit.Declaration
import Protobuf.Plan.Service

/-!
# Traits of services

A service becomes a trait that its client implements, or, for servers, a trait of
controllers, a trait of clients whose methods all give streams, and constants with
the names of the service and of its methods.
-/

namespace Protobuf.Emit

open Plan
open Source

/-- The trait that a method stands in. -/
inductive Surface where
  /-- The trait that the generated client implements. -/
  | call
  | controller
  /-- The trait whose methods all give streams. -/
  | client
  deriving DecidableEq

def requestType (m : MethodPlan) : Code :=
  if m.method.clientStreaming then fill "::protoforge::BoxStream<'a, $>" [m.input] else m.input

def givesStream (style : ReturnStyle) (m : MethodPlan) : Bool :=
  m.method.serverStreaming || style = .stream

def futureType (output : Code) : Code :=
  fill
    "::protoforge::BoxFuture<'a, ::core::result::Result<$, ::protoforge::RpcError> >" [output]

def returnType (style : ReturnStyle) (m : MethodPlan) : Code :=
  if givesStream style m then
    fill
      "::protoforge::BoxStream<'a, ::core::result::Result<$, ::protoforge::RpcError> >" [m.output]
  else futureType m.output

/-- The type of what a method of a trait gives: a controller need not give an empty message. -/
def surfaceReturn (style : ReturnStyle) (surface : Surface) (m : MethodPlan) : Code :=
  match surface with
  | .client => returnType .stream m
  | .controller =>
    if m.method.output = ".google.protobuf.Empty" && !givesStream style m then
      futureType (code "()")
    else returnType style m
  | .call => returnType style m

def contextParam (o : Options) : Code :=
  if o.context then code "ctx: &'a Ctx," else []

def metadataParam (o : Options) : Code :=
  if o.metadata then
    code "metadata: ::core::option::Option<&'a ::protoforge::Metadata>,"
  else []

def accessorSignature (b : BatchPlan) : Code :=
  fill "fn $<'a>(&'a self, ctx: &'a Ctx, $: $,) -> $"
    [name b.accessor, name b.param, b.keyType.toCode, futureType b.output]

/-- The attribute that allows method names as the schema has them. -/
def caseAttribute (o : Options) : Code :=
  if o.methods = .declared then code "#[allow(non_snake_case)]" else []

def surfaceTrait (s : Scope) (plan : ServicePlan) (i : Ident) (surface : Surface) : Item :=
  let o := s.options
  let methods := each plan.methods fun m =>
    docs m.docs ++ fill "fn $<'a>(&'a self, $ request: $, $) -> $;"
      [name m.ident, contextParam o, requestType m, metadataParam o,
        surfaceReturn o.returns surface m]
  let accessors := each plan.batches fun b =>
    docLine (" Loads one item through `" ++ b.methodIdent.text ++
      "`, coalescing concurrent calls made with the same context.") ++
    accessorSignature b ++ code ";"
  let generics := if o.context then code "<Ctx: ::protoforge::DataLoaders>" else []
  plainItem <| docsAt s plan.service.path ++ caseAttribute o ++
    fill "pub trait $ $: Send + Sync ⦃ $ $ ⦄" [name i, generics, methods, accessors]

def identOf (text : String) : Except CompileError Ident :=
  ident text (Ident.ofText? text)

def packageItem (package : String) : Except CompileError Item := do
  let i ← identOf (Naming.constantCase package ++ "_PACKAGE_NAME")
  return plainItem (fill "pub const $: &str = $;" [name i, quote package])

def serviceConstant (service : String) : String :=
  let lower := String.ofList (service.toList.map Char.toLower)
  Naming.constantCase service ++
    if (Naming.withoutEnding? "service" lower).isSome then "_NAME" else "_SERVICE_NAME"

def literalList (texts : List String) : Code :=
  ((texts.map quote).intersperse (word ",")).flatten

def controllerItems (s : Scope) (plan : ServicePlan) : Except CompileError (List Item) := do
  let service := plan.service.name
  let controller ← identOf (service ++ "Controller")
  let client ← identOf (service ++ "Client")
  let nameIdent ← identOf (serviceConstant service)
  let unaryIdent ← identOf (Naming.constantCase service ++ "_CONTROLLER_METHODS")
  let streamIdent ← identOf (Naming.constantCase service ++ "_CONTROLLER_STREAM_METHODS")
  let methods := plan.methods.map MethodPlan.method
  let (streamed, unary) := methods.partition Schema.Method.clientStreaming
  return [
    surfaceTrait s plan controller .controller,
    surfaceTrait s plan client .client,
    plainItem (fill "pub const $: &str = $;" [name nameIdent, quote service]),
    plainItem (docLine " Methods whose request is a single message." ++
      fill "pub const $: &[&str] = &[$];"
        [name unaryIdent, literalList (unary.map Schema.Method.name)]),
    plainItem (docLine " Methods whose request is a stream." ++
      fill "pub const $: &[&str] = &[$];"
        [name streamIdent, literalList (streamed.map Schema.Method.name)])]

end Protobuf.Emit
