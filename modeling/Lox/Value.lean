import Lox.Token

/-!
Values of running programs. Functions, classes and instances live in a store and are known by their number
there, so that two of them are the same exactly if they are one object.
-/
namespace Lox

abbrev FrameId := Nat

abbrev FunctionId := Nat

abbrev ClassId := Nat

abbrev InstanceId := Nat

/-- Functions that are there from the start. -/
inductive Native where
  | clock
  deriving DecidableEq, Repr

namespace Native

def all : List Native := [clock]

def name : Native → String
  | clock => "clock"

def arity : Native → Nat
  | clock => 0

end Native

inductive Value where
  | nil
  | bool (value : Bool)
  | number (value : Float)
  | string (text : String)
  | native (native : Native)
  | function (id : FunctionId)
  | class (id : ClassId)
  | instance (id : InstanceId)
  deriving Repr, Inhabited

namespace Value

def ofLiteral : Literal → Value
  | .nil => nil
  | .bool value => bool value
  | .number value => number value
  | .string text => string text

/-- All values but nil and false count as true. -/
def isTruthy : Value → Bool
  | nil => false
  | bool value => value
  | _ => true

def isNumber : Value → Bool
  | number _ => true
  | _ => false

/-- Equality as programs see it. Values of different kinds are never equal, and a number that is none is
not even equal to itself. -/
def equals : Value → Value → Bool
  | .nil, .nil => true
  | .bool left, .bool right => left == right
  | .number left, .number right => left == right
  | .string left, .string right => left == right
  | .native left, .native right => left == right
  | .function left, .function right => left == right
  | .class left, .class right => left == right
  | .instance left, .instance right => left == right
  | _, _ => false

end Value

end Lox
