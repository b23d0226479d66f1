/-!
# What is said of a token
-/

namespace EdgeGateway.Token

/-- The outcome of the verification of a token. -/
inductive Verdict
  | valid (subject : String)
  | expired
  | invalid
  deriving DecidableEq, Inhabited

end EdgeGateway.Token
