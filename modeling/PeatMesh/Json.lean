/-
JSON values as `serde_json::Value` has them. A number is an unsigned, a
negative signed, or a floating-point one, and the three never equal each
other. An object's entries stand in the order of their keys.

The type of floating-point numbers is a parameter.
-/
import Mathlib.Data.List.Basic

namespace PeatMesh

inductive Number (F : Type)
  | posInt (n : UInt64)
  | negInt (n : Int64)
  | float (f : F)
  deriving DecidableEq, Repr

/-- `serde_json::Value`. -/
inductive Json (F : Type)
  | null
  | bool (b : Bool)
  | number (n : Number F)
  | string (s : String)
  | array (items : List (Json F))
  | object (entries : List (String × Json F))

/-- The doubles, with the conversions of the integers. -/
class Doubles (F : Type) where
  ofU64 : UInt64 → F
  ofI64 : Int64 → F

def Number.asF64 {F : Type} [Doubles F] : Number F → F
  | .posInt n => Doubles.ofU64 n
  | .negInt n => Doubles.ofI64 n
  | .float f => f

namespace Json

variable {F : Type}

def asStr : Json F → Option String
  | .string s => some s
  | _ => none

def asBool : Json F → Option Bool
  | .bool b => some b
  | _ => none

def asNumber : Json F → Option (Number F)
  | .number n => some n
  | _ => none

end Json

section Equality

variable {F : Type} [BEq F]

def Number.beq : Number F → Number F → Bool
  | .posInt m, .posInt n => m == n
  | .negInt m, .negInt n => m == n
  | .float f, .float g => f == g
  | _, _ => false

mutual

def Json.beq : Json F → Json F → Bool
  | .null, .null => true
  | .bool a, .bool b => a == b
  | .number m, .number n => m.beq n
  | .string s, .string t => s == t
  | .array xs, .array ys => Json.beqItems xs ys
  | .object xs, .object ys => Json.beqEntries xs ys
  | _, _ => false

def Json.beqItems : List (Json F) → List (Json F) → Bool
  | [], [] => true
  | x :: xs, y :: ys => x.beq y && Json.beqItems xs ys
  | _, _ => false

def Json.beqEntries : List (String × Json F) → List (String × Json F) → Bool
  | [], [] => true
  | (k, x) :: xs, (l, y) :: ys => k == l && x.beq y && Json.beqEntries xs ys
  | _, _ => false

end

theorem Number.beq_iff [LawfulBEq F] {m n : Number F} : m.beq n = true ↔ m = n := by
  cases m <;> cases n <;> simp [Number.beq]

mutual

theorem Json.beq_iff [LawfulBEq F] : ∀ u v : Json F, u.beq v = true ↔ u = v
  | .null, v => by cases v <;> simp [Json.beq]
  | .bool _, v => by cases v <;> simp [Json.beq]
  | .number _, v => by cases v <;> simp [Json.beq, Number.beq_iff]
  | .string _, v => by cases v <;> simp [Json.beq]
  | .array xs, v => by cases v <;> simp [Json.beq, Json.beqItems_iff xs]
  | .object xs, v => by cases v <;> simp [Json.beq, Json.beqEntries_iff xs]

theorem Json.beqItems_iff [LawfulBEq F] : ∀ xs ys : List (Json F), beqItems xs ys = true ↔ xs = ys
  | [], ys => by cases ys <;> simp [beqItems]
  | x :: xs, ys => by cases ys <;> simp [beqItems, Json.beq_iff x, Json.beqItems_iff xs]

theorem Json.beqEntries_iff [LawfulBEq F] :
    ∀ xs ys : List (String × Json F), beqEntries xs ys = true ↔ xs = ys
  | [], ys => by cases ys <;> simp [beqEntries]
  | (k, x) :: xs, ys => by
    cases ys <;> simp [beqEntries, Json.beq_iff x, Json.beqEntries_iff xs, Prod.ext_iff]

end

end Equality

instance {F : Type} [DecidableEq F] : DecidableEq (Json F) := fun u v => decidable_of_iff _ (Json.beq_iff u v)

end PeatMesh
