import Lineage.Exchange.Request
import Lineage.Generated.Unit
import Lineage.Plan.Basic

namespace Lineage.Exchange

/-!
# Responses to a compiler

* `Response` — generated files, or what is wrong with the request,
* `Response.toBytes` — the encoded message,
* `Request.respond` — the response to a request,
* `answer?` — the same from bytes to bytes.

A request that nothing can be generated from has a response too; only bytes that are no request have
none.
-/

/-- What a compiler gets back. -/
structure Response where
  error : Option String := none
  files : List Generated.Artifact := []

namespace Response

/-- Optional fields are supported. -/
def features : Nat := 1

/-- A generated file in a response. -/
def fileBytes (a : Generated.Artifact) : Wire.Bytes :=
  Wire.textField 1 a.name ++ Wire.textField 15 a.content

/-- The encoded response, its fields in the order of their numbers. -/
def toBytes (r : Response) : Wire.Bytes :=
  ((r.error.map (Wire.textField 1)).getD []) ++ Wire.varintField 2 features
    ++ r.files.flatMap fun a => Wire.bytesField 15 (fileBytes a)

end Response

namespace Request

/-- The configuration that a request asks for. -/
def config (r : Request) : Except ConfigError Config := Config.ofParameter r.parameter

/-- The files that a request asks for. -/
def artifacts (r : Request) : Except GenerateError (List Generated.Artifact) := do
  let config ← r.config.mapError .config
  return Generated.artifacts (← Plan.generate r.set config) config

/-- The response to a request. -/
def respond (r : Request) : Response :=
  match r.artifacts with
  | .ok files => { files }
  | .error e => { error := some e.message }

end Request

/-- The response to an encoded request. -/
def answer? (bs : Wire.Bytes) : Option Wire.Bytes :=
  (Request.ofBytes? bs).map fun r => r.respond.toBytes

end Lineage.Exchange
