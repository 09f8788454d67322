namespace TrustlistCore.EventBus

-- What the SDKs raise or throw: the `EventBusError` of both, the built-in exceptions
-- of Python that reach a caller, the errors of JavaScript, and whatever a handler or a
-- schema check raises.
inductive Failure
  | eventBusError (message : String)
  | valueError (message : String)
  | keyError (key : String)
  | typeError (message : String)
  | attributeError (message : String)
  | recursionError (message : String)
  | syntaxError (message : String)
  | error (message : String)
  | schema (message : String)
  | handler (message : String)
  deriving DecidableEq, Repr

end TrustlistCore.EventBus
