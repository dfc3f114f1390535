import DistributedChat.Lib.Bytes

/-!
# JSON values

The values a JSON reader builds, and the typed access of `Json::Value`: a test such as `isInt`
accepts every number with an integral value in range, written as an integer or not, while `==`
tells the two apart. Strings are the bytes they hold.
-/

namespace DistributedChat.Lib

def ascii (s : String) : Bytes := s.toList.map fun c => UInt8.ofNat c.toNat

inductive Json
  | null
  | bool (b : Bool)
  /-- A number written as an integer. -/
  | int (n : ℤ)
  /-- Any other number: its value cut to an integer, whether it is integral, and its text as the
  writer prints it. -/
  | real (cut : ℤ) (integral : Bool) (text : Bytes)
  | str (s : Bytes)
  | arr (elements : List Json)
  | obj (members : List (Bytes × Json))

namespace Json

/-- The integral value of a number. -/
def whole? : Json → Option ℤ
  | .int n => some n
  | .real n true _ => some n
  | _ => none

/-- `isInt` and `asInt`: an integral value of 32 bits. -/
def int? (v : Json) : Option ℤ := v.whole?.filter fun n => decide (-(2 ^ 31) ≤ n ∧ n < 2 ^ 31)

/-- `asInt`, which also converts null, truth values and reals in range, and throws for others. -/
def asInt : Json → Option ℤ
  | .null => some 0
  | .bool b => some (if b then 1 else 0)
  | .int n => (Json.int n).int?
  | .real n integral _ =>
    if -(2 ^ 31) < n ∧ n < 2 ^ 31 - 1 ∨ integral = true ∧ -(2 ^ 31) ≤ n ∧ n < 2 ^ 31 then some n
    else none
  | _ => none

/-- `isUInt64` and `asUInt64`. -/
def uint64? (v : Json) : Option ℕ :=
  (v.whole?.filter fun n => decide (0 ≤ n ∧ n < 2 ^ 64)).map Int.toNat

/-- `isString`, and the string. -/
def str? : Json → Option Bytes
  | .str s => some s
  | _ => none

/-- `asString`, which also prints numbers and truth values and throws for containers. -/
def asString : Json → Option Bytes
  | .null => some []
  | .bool b => some (ascii (toString b))
  | .int n => some (ascii (toString n))
  | .real _ _ text => some text
  | .str s => some s
  | .arr _ => none
  | .obj _ => none

/-- Is the value the integer `n`, of an integer type? -/
def eqInt (v : Json) (n : ℤ) : Bool :=
  match v with
  | .int m => m == n
  | _ => false

/-- The member with a key, if the value is an object that has it. -/
def find (v : Json) (key : String) : Option Json :=
  match v with
  | .obj members => members.lookup (ascii key)
  | _ => none

/-- `operator[]` of an object: a missing member is null. -/
def get (v : Json) (key : String) : Json := (v.find key).getD .null

/-- Assignment to a member; a value that is no object yet becomes one. -/
def set (v : Json) (key : String) (x : Json) : Json :=
  match v with
  | .obj members => .obj (members.filter (fun m => m.1 != ascii key) ++ [(ascii key, x)])
  | _ => .obj [(ascii key, x)]

def setAll (v : Json) (members : List (String × Json)) : Json :=
  members.foldl (fun v m => v.set m.1 m.2) v

def isObject : Json → Bool
  | .obj _ => true
  | _ => false

/-- `isArray`, and the elements. -/
def arr? : Json → Option (List Json)
  | .arr elements => some elements
  | _ => none

/-- The elements `for` iterates over; other values than containers have none. -/
def elements : Json → List Json
  | .arr elements => elements
  | .obj members => members.map Prod.snd
  | _ => []

/-- `toInt`, `toString` and `toArray` of `QJsonValue`: a value of another type is read as the
default. -/
def toInt (v : Json) : ℤ := v.int?.getD 0

def toStr (v : Json) : Bytes := v.str?.getD []

def toArr (v : Json) : List Json := v.arr?.getD []

/-- `append`; null becomes an array. -/
def append (v x : Json) : Json := .arr (v.elements ++ [x])

theorem lookup_assign (members : List (Bytes × Json)) (k k' : Bytes) (x : Json) :
    (members.filter (fun m => m.1 != k) ++ [(k, x)]).lookup k' =
      if k' = k then some x else members.lookup k' := by
  induction members with
  | nil =>
    by_cases h : k' = k
    · simp [h]
    · simp [List.lookup_cons, h, beq_eq_false_iff_ne.mpr h]
  | cons m ms ih =>
    obtain ⟨j, y⟩ := m
    by_cases hj : j = k
    · by_cases h : k' = k
      · simpa [hj, h] using ih
      · simpa [hj, h, List.lookup_cons, beq_eq_false_iff_ne.mpr h] using ih
    · by_cases h : k' = j
      · simp [hj, h]
      · simpa [hj, List.lookup_cons, beq_eq_false_iff_ne.mpr h] using ih

theorem find_set (v : Json) (key key' : String) (x : Json) :
    (v.set key x).find key' = if ascii key' = ascii key then some x else v.find key' := by
  by_cases h : ascii key' = ascii key
  · cases v <;> simp [set, find, lookup_assign, h]
  · cases v <;> simp [set, find, lookup_assign, List.lookup_cons, h, beq_eq_false_iff_ne.mpr h]

theorem get_set (v : Json) (key key' : String) (x : Json) :
    (v.set key x).get key' = if ascii key' = ascii key then x else v.get key' := by
  unfold get
  rw [find_set]
  split <;> rfl

end Json

end DistributedChat.Lib
