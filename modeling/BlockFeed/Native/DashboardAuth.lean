import BlockFeed.Native.CheckoutSession
import BlockFeed.Native.WireFormat
import Mathlib.Data.List.DropRight

/-!
# Who may call the dashboard

Every GraphQL request goes through `requireAuth`, which finds the user in the JWT of the
`authorization` header, and every webhook operation through `requireStripeSubscription`, which
looks at the Stripe session of the user's row.
-/

namespace BlockFeed.Native

/-! ## Errors -/

inductive GraphQLErrorCode where
  | internalServerError
  | unauthorized
  | badRequest
  | invalidSubscriptionError
  | notSubscribedError
deriving DecidableEq, Repr

structure GraphQLError where
  code : GraphQLErrorCode
  status : Nat
  msg : String
deriving DecidableEq, Repr

def gqlNotSubscribedError (msg : String) : GraphQLError := ⟨.notSubscribedError, 400, msg⟩

def gqlInvalidSubscriptionError (msg : String) : GraphQLError :=
  ⟨.invalidSubscriptionError, 400, msg⟩

def gqlBadRequestError (msg : String) : GraphQLError := ⟨.badRequest, 400, msg⟩

def gqlUnauthorizedError (msg : String) : GraphQLError := ⟨.unauthorized, 401, msg⟩

def gqlInternalServerError (msg : String) : GraphQLError := ⟨.internalServerError, 500, msg⟩

/-- What the server answers when something else is thrown. -/
def unexpectedError : GraphQLError := gqlInternalServerError "Unexpected error."

/-! ## The token -/

/-- `\s` of a regular expression, and what `trim` removes. -/
def isSpace (c : Char) : Bool :=
  c ∈ ['\x09', '\x0a', '\x0b', '\x0c', '\x0d', ' ', '\u00a0', '\u1680', '\u2028', '\u2029',
    '\u202f', '\u205f', '\u3000', '\ufeff'] || ('\u2000' ≤ c && c ≤ '\u200a')

/-- `/^bearer\s\S+$/g` matches. -/
def isBearer : Text → Bool
  | 'b' :: 'e' :: 'a' :: 'r' :: 'e' :: 'r' :: c :: token =>
    isSpace c && !token.isEmpty && token.all fun c => !isSpace c
  | _ => false

/-- `text.trim()` -/
def trim (text : Text) : Text := (text.dropWhile isSpace).rdropWhile isSpace

/-- The token of the `authorization` header. -/
def bearerToken : Option Text → Except GraphQLError Text
  | none => .error (gqlUnauthorizedError "request is missing authorization header")
  | some authorization =>
    if isBearer authorization then
      match ((trim authorization).splitOn ' ')[1]? with
      | some token => .ok token
      | none => .error (gqlUnauthorizedError "authorization header has no token")
    else .error (gqlUnauthorizedError "authorization header is malformed")

/-- What `jwt.verify` calls back with. -/
inductive JwtResult where
  | error
  | text (result : String)
  | payload (sub : Option String)
deriving DecidableEq

/-- The user of a request: `requireAuth` up to the cache. -/
def authenticate (verify : Text → JwtResult) (authorization : Option Text) :
    Except GraphQLError String := do
  let token ← bearerToken authorization
  match verify token with
  | .error => throw (gqlUnauthorizedError "could not verify token")
  | .text result =>
    throw (gqlUnauthorizedError s!"received unexpected string from JWT verification: {result}")
  | .payload none => throw (gqlUnauthorizedError "JWT is missing \"sub\" field")
  | .payload (some userId) => return userId

/-! ## The subscription -/

/-- What `requireStripeSubscription` reads: the user's row and its Stripe session. -/
inductive SubscriptionRead where
  /-- a read throws -/
  | failed
  | noRow
  | session (sess : StripeSession)
deriving DecidableEq

/-- The checks of `requireStripeSubscription`. -/
def requireStripeSubscription : SubscriptionRead → Except GraphQLError StripeSubscription
  | .failed => .error unexpectedError
  | .noRow => .error (gqlNotSubscribedError "user is not subscribed")
  | .session sess =>
    if sess.status ≠ some .complete then
      .error (gqlNotSubscribedError "user must complete checkout session")
    else
      match sess.customer with
      | none => .error (gqlInternalServerError "could not obtain customer from session")
      | some customer =>
        if customer.deleted then
          .error (gqlNotSubscribedError "user has been deleted and must subscribe again")
        else
          match sess.subscription with
          | none => .error (gqlInternalServerError "could not obtain subscription from session")
          | some stripeSub =>
            if stripeSub.status = .canceled then
              .error (gqlNotSubscribedError "user has canceled their subscription")
            else if stripeSub.status ≠ .trialing ∧ stripeSub.status ≠ .active then
              .error (gqlInvalidSubscriptionError "invalid subscription")
            else .ok stripeSub

end BlockFeed.Native
