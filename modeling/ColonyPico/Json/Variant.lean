import Mathlib.Algebra.Group.Int.Defs
import Mathlib.Data.Rat.Defs
import Mathlib.Data.List.Basic

/-!
Parsed JSON values (`JsonVariant`), with the questions that the model points ask of them. The
floating point numbers are machine numbers, or exact rationals for the points of the thermostat.
-/

namespace ColonyPico.Json.Variant

/-- A parsed value. -/
inductive JsonVariant (ν : Type) where
  | null
  | boolean (value : Bool)
  | integer (value : Int)
  | float (value : ν)
  | string (value : String)
  | array (elements : List (JsonVariant ν))
  | object (members : List (String × JsonVariant ν))

namespace JsonVariant

variable {ν : Type}

def isNull : JsonVariant ν → Bool
  | null => true
  | _ => false

/-- `is<JsonObject>()`. -/
def isObject : JsonVariant ν → Bool
  | object _ => true
  | _ => false

/-- `operator[]` with a key: null without such a member. -/
def getMember : JsonVariant ν → String → JsonVariant ν
  | object members, key => ((members.find? fun member => member.1 == key).map Prod.snd).getD null
  | _, _ => null

/-- The conversion to a `JsonArray`, which is null for anything else. -/
def asArray : JsonVariant ν → Option (List (JsonVariant ν))
  | array elements => some elements
  | _ => none

/-- `as<bool>()`. -/
def asBoolean : JsonVariant Float → Bool
  | null => false
  | boolean value => value
  | integer value => value != 0
  | float value => value != 0
  | string _ => true
  | array _ => true
  | object _ => true

/-- The conversion to `const char*`: a null pointer for anything but a string, and what the
pointer shows ends at the first null character. -/
def asCString : JsonVariant ν → Option String
  | string value => some (String.ofList (value.toList.takeWhile (· ≠ '\x00')))
  | _ => none

/-- The values of an `int`. -/
def IsInt (n : Int) : Prop :=
  -2 ^ 31 ≤ n ∧ n < 2 ^ 31

instance (n : Int) : Decidable (IsInt n) :=
  inferInstanceAs (Decidable (_ ∧ _))

/-- `operator|` with an `int`: the value if it is one, else the default. -/
def intOr : JsonVariant ν → Int → Int
  | integer value, defaultValue => if IsInt value then value else defaultValue
  | _, defaultValue => defaultValue

/-- `operator|` with a `uint32_t`. -/
def uint32Or : JsonVariant ν → Nat → Nat
  | integer value, defaultValue =>
      if 0 ≤ value ∧ value < 2 ^ 32 then value.toNat else defaultValue
  | _, defaultValue => defaultValue

/-- The value of an unsigned type of so many bits, where `is<T>()`. -/
def asUnsigned (bits : Nat) : JsonVariant ν → Option Nat
  | integer value => if 0 ≤ value ∧ value < 2 ^ bits then some value.toNat else none
  | _ => none

/-- `as<float>()`, where `is<float>()`: any number. -/
def asFloat : JsonVariant ℚ → Option ℚ
  | integer value => some value
  | float value => some value
  | _ => none

end JsonVariant

/-- Conversions to a number type: its size, `is<T>()`, and the bytes of `as<T>()`. -/
structure Converter where
  size : Nat
  size_pos : 0 < size
  checkJson : JsonVariant Float → Bool
  fromJson : JsonVariant Float → List UInt8
  length_fromJson : ∀ value, (fromJson value).length = size

namespace Converter

variable (converter : Converter)

theorem length_flatMap_fromJson (values : List (JsonVariant Float)) :
    (values.flatMap converter.fromJson).length = values.length * converter.size := by
  induction values with
  | nil => simp
  | cons value values ih =>
      rw [List.flatMap_cons, List.length_append, ih, converter.length_fromJson, List.length_cons,
        Nat.succ_mul, Nat.add_comm]

end Converter

/-- `uint8_t`, on the values that are no floating point numbers and no strings. -/
def uint8 : Converter where
  size := 1
  size_pos := Nat.one_pos
  checkJson
    | .integer value => decide (0 ≤ value ∧ value < 256)
    | _ => false
  fromJson
    | .integer value => [if 0 ≤ value ∧ value < 256 then UInt8.ofNat value.toNat else 0]
    | .boolean value => [value.toUInt8]
    | _ => [0]
  length_fromJson := by
    rintro (_ | _) <;> rfl

end ColonyPico.Json.Variant
