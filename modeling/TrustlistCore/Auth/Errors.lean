namespace TrustlistCore.Auth

-- The exceptions that reach a caller of the library: the `AuthError` hierarchy,
-- the `ValueError` of the audit guard, a failed dictionary lookup, the two kinds of
-- database error (a violated constraint, a value its column refuses), what a sink raises
-- and what Python raises over a token.
inductive Failure
  | authError (message : String)
  | authenticationFailed (message : String)
  | accountDisabled (message : String)
  | sessionNotFound (message : String)
  | sessionRevoked (message : String)
  | totpNotEnrolled (message : String)
  | totpAlreadyEnrolled (message : String)
  | totpVerificationFailed (message : String)
  | unknownRole (message : String)
  | unknownPermission (message : String)
  | roleScopeError (message : String)
  | valueError (message : String)
  | keyError (key : String)
  | integrityError (constraint : String)
  | dataError (column : String)
  | sinkError (message : String)
  | tokenInvalid (message : String)
  | tokenExpired (message : String)
  | unicodeEncodeError (message : String)
  | typeError (message : String)
  | overflowError (message : String)
  | recursionError (message : String)
  deriving DecidableEq, Repr

-- `AuthenticationFailed()` carries no detail of why the check failed.
def authenticationFailedDefault : Failure := .authenticationFailed "authentication failed"

end TrustlistCore.Auth
