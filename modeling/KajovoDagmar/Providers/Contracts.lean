import KajovoDagmar.Errors

/-! # Provider contracts

The models that a provider lists, the request a chat provider receives and the result it returns. -/

namespace KajovoDagmar

/-- A listed model; a set of capabilities is the map in which all of them are enabled. -/
structure ProviderModel where
  externalId : String
  displayName : String
  capabilities : List (String × Bool)

structure ChatMessage where
  role : String
  content : String
deriving DecidableEq, Repr

structure ChatRequest where
  model : String
  messages : List ChatMessage
  responseSchema : Json
  /-- `repr` of the temperature. -/
  temperature : String
  /-- `repr` of the timeout. -/
  timeoutSeconds : String
  capabilities : Json

structure ChatResult where
  providerResponseId : String
  text : String
  structured : Json
  inputUnits : Option ℤ
  outputUnits : Option ℤ

/-- One call of a chat provider: what it was asked and what it answered. -/
structure ChatCall where
  request : ChatRequest
  reply : Except Exc ChatResult

end KajovoDagmar
