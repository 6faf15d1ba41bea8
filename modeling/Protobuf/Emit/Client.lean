import Protobuf.Emit.ServiceTrait

/-!
# Clients of services

A client implements the trait of a service over a transport. Single requests have
a helper that calls the transport directly; remembered requests and the accessors
of batches go through a loader of the context.
-/

namespace Protobuf.Emit

open Plan
open Source

def contextArgument (o : Options) : Code :=
  if o.context then code "ctx" else code "&()"

def callIdent (method : Ident) : Except CompileError Ident :=
  identOf ("call_" ++ method.name)

def callHelper (o : Options) (plan : ServicePlan) (m : MethodPlan) : Except CompileError Code := do
  let call ← callIdent m.ident
  let service := plan.fullName
  let generics := if o.context then code "<Ctx: Sync>" else []
  let param := if o.context then code "ctx: &Ctx," else []
  let bound := if o.context then code "R: ::protoforge::Rpc<Ctx>" else code "R: ::protoforge::Rpc"
  return docLine (" Calls `" ++ service ++ "/" ++ m.method.name ++ "` directly.") ++ fill
    ("pub async fn $ $(&self, $ request: $,) -> " ++
      "::core::result::Result<$, ::protoforge::RpcError> where $, ⦃ " ++
      "let data = ::protoforge::Message::encode_to_bytes(&request); " ++
      "let response = self.rpc.request($, $, $, data).await?; " ++
      "::core::result::Result::Ok(<$ as ::protoforge::Message>::decode_bytes(&response)?) ⦄")
    [name call, generics, param, m.input, m.output, bound, contextArgument o, quote service,
      quote m.method.name, m.output]

/-- A future in the shape that calls give. -/
def wrapFuture (style : ReturnStyle) (future : Code) : Code :=
  match style with
  | .future => fill "::std::boxed::Box::pin($)" [future]
  | .stream =>
    fill
      "::protoforge::futures::StreamExt::boxed(::protoforge::futures::stream::once($))" [future]

/-- The closure that decodes an item of a response stream. -/
def decodeItem (m : MethodPlan) : Code :=
  fill
    ("|item| item.and_then(|bytes| <$ as ::protoforge::Message>::decode_bytes(&bytes)" ++
      ".map_err(::protoforge::RpcError::from))")
    [m.output]

def encodeRequests : Code :=
  code <| "let requests = ::protoforge::futures::StreamExt::boxed(" ++
    "::protoforge::futures::StreamExt::map(request, " ++
    "|message| ::protoforge::Message::encode_to_bytes(&message),));"

/-- The expression that decodes the items of a response stream. -/
def decodeResponses (m : MethodPlan) : Code :=
  fill
    ("::protoforge::futures::StreamExt::boxed(" ++
      "::protoforge::futures::StreamExt::map(responses, $))")
    [decodeItem m]

/-- The future of the first response to a stream of requests. -/
def firstResponse (o : Options) (service : String) (m : MethodPlan) : Code :=
  let closed := service ++ "/" ++ m.method.name ++ ": stream closed without a response"
  fill
    ("async move ⦃ let mut responses = self.rpc.streaming($, $, $, requests); " ++
      "match ::protoforge::futures::StreamExt::next(&mut responses).await ⦃ " ++
      "::core::option::Option::Some(item) => ⦃ let response = item?; " ++
      "::core::result::Result::<_, ::protoforge::RpcError>::Ok(" ++
      "<$ as ::protoforge::Message>::decode_bytes(&response)?,) ⦄ " ++
      "::core::option::Option::None => " ++
      "::core::result::Result::Err(::protoforge::RpcError::transport($)), ⦄ ⦄")
    [contextArgument o, quote service, quote m.method.name, m.output, quote closed]

def rememberedResponse (service : String) (m : MethodPlan) : Code :=
  fill
    ("async move ⦃ let loader = ctx.get_data_loader($, " ++
      "::protoforge::BatchLoader::<::protoforge::bytes::Bytes, $>::new,); " ++
      "let key = ::protoforge::Message::encode_to_bytes(&request); " ++
      "loader.load(key, move |requests| async move ⦃ " ++
      "::protoforge::futures::future::try_join_all(" ++
      "requests.into_iter().map(move |data| async move ⦃ " ++
      "let response = self.rpc.request(ctx, $, $, data).await?; " ++
      "::core::result::Result::<_, ::protoforge::RpcError>::Ok(" ++
      "<$ as ::protoforge::Message>::decode_bytes(&response)?,) ⦄)).await ⦄).await ⦄")
    [quote (service ++ "." ++ m.method.name), m.output, quote service, quote m.method.name,
      m.output]

def methodBody (o : Options) (plan : ServicePlan) (m : MethodPlan) : Except CompileError Code :=
  let service := plan.fullName
  let arguments := [contextArgument o, quote service, quote m.method.name]
  match m.method.clientStreaming, m.method.serverStreaming with
  | true, true =>
    return encodeRequests ++
      fill "let responses = self.rpc.streaming($, $, $, requests);" arguments ++ decodeResponses m
  | true, false => return encodeRequests ++ wrapFuture o.returns (firstResponse o service m)
  | false, true =>
    return code "let data = ::protoforge::Message::encode_to_bytes(&request);" ++
      fill "let responses = self.rpc.server_stream($, $, $, data);" arguments ++ decodeResponses m
  | false, false => do
    if m.memoized then return wrapFuture o.returns (rememberedResponse service m)
    let context := if o.context then code "ctx," else []
    return wrapFuture o.returns
      (fill "self.$($ request)" [name (← callIdent m.ident), context])

def batchFunction (b : BatchPlan) (call : Ident) : Code :=
  let keys := name b.inputField
  if b.keyed then
    fill
      ("move |$: ::std::vec::Vec<$>| async move ⦃ let request = $ ⦃ $: $.clone() ⦄; " ++
        "let response = self.$(ctx, request).await?; " ++
        "::core::result::Result::<_, ::protoforge::RpcError>::Ok(" ++
        "$.iter().map(|key| response.$.get(key).cloned()).collect(),) ⦄")
      [keys, b.keyType.toCode, b.input, keys, keys, name call, keys, name b.outputField]
  else
    fill
      ("move |$: ::std::vec::Vec<$>| async move ⦃ " ++
        "let response = self.$(ctx, $ ⦃ $ ⦄).await?; " ++
        "::core::result::Result::<_, ::protoforge::RpcError>::Ok(response.$) ⦄")
      [keys, b.keyType.toCode, name call, b.input, keys, name b.outputField]

def accessorBody (b : BatchPlan) : Except CompileError Code := do
  let call ← callIdent b.methodIdent
  return fill
    ("::std::boxed::Box::pin(async move ⦃ " ++
      "let loader = ctx.get_data_loader($, ::protoforge::BatchLoader::<$, $>::new); " ++
      "loader.load($, $).await ⦄)")
    [quote b.identity, b.keyType.toCode, b.output, name b.param, batchFunction b call]

def clientItems (s : Scope) (plan : ServicePlan) : Except CompileError (List Item) := do
  let o := s.options
  let client ← identOf (plan.service.name ++ "ClientImpl")
  let helpers ← (plan.methods.filter fun m => isUnary m.method).mapM (callHelper o plan)
  let methods ← plan.methods.mapM fun m => do
    return fill "fn $<'a>(&'a self, $ request: $) -> $ ⦃ $ ⦄"
      [name m.ident, contextParam o, requestType m, returnType o.returns m,
        ← methodBody o plan m]
  let accessors ← plan.batches.mapM fun b => do
    return fill "$ ⦃ $ ⦄" [accessorSignature b, ← accessorBody b]
  let header :=
    if o.context then
      fill
        ("impl<Ctx, R> $<Ctx> for $<R> where Ctx: ::protoforge::DataLoaders, " ++
          "R: ::protoforge::Rpc<Ctx>,")
        [name plan.ident, name client]
    else fill "impl<R> $ for $<R> where R: ::protoforge::Rpc," [name plan.ident, name client]
  let doc := " Client for [`" ++ plan.ident.text ++ "`] over an injected transport."
  return [
    typeItem client (docLine doc ++
      fill "#[derive(Clone, Debug)] pub struct $<R> ⦃ rpc: R, ⦄" [name client]),
    plainItem (caseAttribute o ++ fill
      ("impl<R> $<R> ⦃ pub fn new(rpc: R) -> Self ⦃ Self ⦃ rpc ⦄ ⦄ " ++
        "pub fn rpc(&self) -> &R ⦃ &self.rpc ⦄ $ ⦄")
      [name client, helpers.flatten]),
    plainItem (caseAttribute o ++
      fill "$ ⦃ $ $ ⦄" [header, methods.flatten, accessors.flatten])]

end Protobuf.Emit
