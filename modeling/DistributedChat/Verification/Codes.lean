import DistributedChat.Lib.ExpiringMap

/-!
# E-mail verification codes

Two programs share one Redis. The verification service (`VarifyServer/security.js`,
`VarifyServer/redis.js`) issues a code for an address with the script `ISSUE_CODE_SCRIPT`; the gate
(`gate/storage/RedisMgr.cpp`) consumes a submitted code with the script of
`ConsumeVerificationCode`. Both build their keys by putting a prefix in front of the address.
-/

namespace DistributedChat.Verification

open Lib

/-! ## Addresses -/

/-- White space, as `String.prototype.trim` and the class `\s` have it. -/
def isSpace (c : Char) : Bool :=
  let n := c.toNat
  (9 ≤ n && n ≤ 13) || n == 0x20 || n == 0xa0 || n == 0x1680 || (0x2000 ≤ n && n ≤ 0x200a) ||
    n == 0x2028 || n == 0x2029 || n == 0x202f || n == 0x205f || n == 0x3000 || n == 0xfeff

def trim (s : List Char) : List Char :=
  ((s.dropWhile isSpace).reverse.dropWhile isSpace).reverse

/-- The length of a string in UTF-16 code units. -/
def lengthUtf16 (s : List Char) : ℕ := (s.map fun c => if c.toNat < 0x10000 then 1 else 2).sum

/-- The class `[^\s@]`. -/
def isPlain (c : Char) : Bool := !isSpace c && c != '@'

/-- `/^[^\s@]+@[^\s@]+\.[^\s@]+$/`: neither side of the `@` holds another one, so the match is at
the first `@`, and the dot has a character on both sides. -/
def EMAIL_PATTERN (s : List Char) : Bool :=
  match s.span isPlain with
  | (name, '@' :: domain) =>
    !name.isEmpty && domain.all isPlain && (domain.drop 1).dropLast.contains '.'
  | _ => false

/-- `normalizeEmail` of `security.js`; `toLowerCase` is the one of the JavaScript runtime. -/
def normalizeEmail (toLowerCase : List Char → List Char) (value : String) : Option String :=
  let email := toLowerCase (trim value.toList)
  if email.length = 0 ∨ 254 < lengthUtf16 email ∨ EMAIL_PATTERN email = false then none
  else some (String.ofList email)

/-- The addresses `normalizeEmail` can return. -/
def Accepted (toLowerCase : List Char → List Char) : Set String :=
  {e | ∃ value, normalizeEmail toLowerCase value = some e}

/-! ## Keys -/

structure Keys where
  code : String
  attempts : String
  cooldown : String
  hourly : String
  deriving DecidableEq, Repr

def verificationKeys (email : String) : Keys where
  code := "code_" ++ email
  attempts := "code_attempts_" ++ email
  cooldown := "code_cooldown_" ++ email
  hourly := "code_hourly_" ++ email

def globalKey : String := "verification_global_hourly"

/-! ## Redis -/

abbrev Redis := ExpiringMap String String

/-- The digits of a number, most significant first, appended to `n`. -/
def readDigits : ℕ → List Char → Option ℕ
  | n, [] => some n
  | n, c :: cs => if c.isDigit then readDigits (10 * n + (c.toNat - '0'.toNat)) cs else none

/-- The integers Redis reads from a string: canonical decimals of 64 bits. -/
def string2ll (s : String) : Option ℤ :=
  let value : Option ℤ := match s.toList with
    | ['0'] => some 0
    | '-' :: c :: cs => if c = '0' then none else (readDigits 0 (c :: cs)).map fun n => -(n : ℤ)
    | c :: cs => if c = '0' then none else (readDigits 0 (c :: cs)).map fun n => (n : ℤ)
    | [] => none
  value.filter fun n => decide (-(2 ^ 63 : ℤ) ≤ n ∧ n < 2 ^ 63)

/-- `INCR`: a missing key counts as zero, a value that is no integer or overflows is an error. -/
def incr (k : String) : Script String String ℤ :=
  Script.alter k fun value => do
    let n ← match value with
      | none => some 0
      | some t => string2ll t
    if n + 1 < 2 ^ 63 then some (n + 1, toString (n + 1)) else none

/-! ## Issuing -/

/-- The options of `IssueVerificationCode`, with their defaults. -/
structure IssueOptions where
  cooldownSeconds : ℕ := 60
  hourlyWindowSeconds : ℕ := 3600
  hourlyLimit : ℤ := 10
  codeTtlSeconds : ℕ := 300
  globalHourlyLimit : ℤ := 500
  deriving DecidableEq, Repr

def ISSUE_CODE_SCRIPT (keys : Keys) (code : String) (o : IssueOptions) :
    Script String String ℤ := do
  if (← Script.present keys.cooldown) then
    return 2
  else
    let hourly ← incr keys.hourly
    Script.onlyIf (hourly = 1) (Script.expire keys.hourly o.hourlyWindowSeconds)
    if o.hourlyLimit < hourly then
      return 3
    else
      let global_hourly ← incr globalKey
      Script.onlyIf (global_hourly = 1) (Script.expire globalKey o.hourlyWindowSeconds)
      if o.globalHourlyLimit < global_hourly then
        return 4
      else
        Script.setEx keys.cooldown "1" o.cooldownSeconds
        Script.setEx keys.code code o.codeTtlSeconds
        Script.del keys.attempts
        return 1

/-- `IssueVerificationCode`: the script's reply, `0` when it raised an error. -/
def IssueVerificationCode (o : IssueOptions) (email code : String) (now : ℕ) (s : Redis) :
    ℤ × Redis :=
  let (reply, s') := ISSUE_CODE_SCRIPT (verificationKeys email) code o now s
  (reply.getD 0, s')

/-! ## Consuming -/

inductive VerificationResult
  | Success
  | Expired
  | Mismatch
  | TooManyAttempts
  | RedisError
  deriving DecidableEq, Repr

def consumeScript (codeKey attemptsKey submitted : String) (maxAttempts : ℤ) :
    Script String String ℤ := do
  let expected ← Script.get codeKey
  match expected with
  | none => return -1
  | some expected =>
    if expected ≠ submitted then
      let attempts ← incr attemptsKey
      Script.onlyIf (attempts = 1) do
        let ttl ← Script.ttl codeKey
        Script.expire attemptsKey (if ttl < 1 then 300 else ttl.toNat)
      if maxAttempts ≤ attempts then
        Script.del codeKey
        Script.del attemptsKey
        return -3
      else
        return -2
    else
      Script.del codeKey
      Script.del attemptsKey
      return 1

def ConsumeVerificationCode (maxAttempts : ℤ) (email submitted : String) (now : ℕ) (s : Redis) :
    VerificationResult × Redis :=
  let (reply, s') := consumeScript ("code_" ++ email) ("code_attempts_" ++ email) submitted
    maxAttempts now s
  (match reply with
    | some 1 => .Success
    | some (-1) => .Expired
    | some (-2) => .Mismatch
    | some (-3) => .TooManyAttempts
    | _ => .RedisError, s')

/-! ## Runs -/

/-- A call to one of the two programs. -/
inductive Call
  | issue (email code : String)
  | consume (email submitted : String)
  deriving DecidableEq, Repr

def Call.email : Call → String
  | .issue e _ => e
  | .consume e _ => e

/-- A call and the time Redis runs its script. -/
structure Request where
  now : ℕ
  call : Call
  deriving DecidableEq, Repr

inductive Outcome
  | issued (code : ℤ)
  | consumed (result : VerificationResult)
  deriving DecidableEq, Repr

/-- The settings of the two programs: the options of `IssueVerificationCode` and the
`max_attempts` of `ConsumeVerificationCode`. -/
structure Settings where
  issue : IssueOptions := {}
  maxAttempts : ℤ := 5
  deriving DecidableEq, Repr

def perform (cfg : Settings) (s : Redis) (r : Request) : Outcome × Redis :=
  match r.call with
  | .issue e c =>
    let (n, s') := IssueVerificationCode cfg.issue e c r.now s
    (.issued n, s')
  | .consume e c =>
    let (v, s') := ConsumeVerificationCode cfg.maxAttempts e c r.now s
    (.consumed v, s')

/-- What happened at one request: the request, the entry of the global counter an `issue` finds,
and the outcome. -/
structure Event where
  request : Request
  global : Option (Entry String)
  outcome : Outcome
  deriving DecidableEq

/-- The entry of the global counter, as far as a request depends on it. -/
def globalSeen (s : Redis) (r : Request) : Option (Entry String) :=
  match r.call with
  | .issue _ _ => s globalKey
  | .consume _ _ => none

/-- The events of a run from `s`, and the store it leaves. -/
def run (cfg : Settings) (s : Redis) : List Request → List Event × Redis
  | [] => ([], s)
  | r :: rs =>
    let (o, s') := perform cfg s r
    let (es, s'') := run cfg s' rs
    (⟨r, globalSeen s r, o⟩ :: es, s'')

/-- Redis before any request. -/
def empty : Redis := fun _ => none

end DistributedChat.Verification
