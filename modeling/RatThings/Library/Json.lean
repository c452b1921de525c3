import Mathlib.Data.Nat.Notation
import Mathlib.Data.Rat.Init

/-!
# JSON values

A value whose strings, and the keys of whose objects, are of a type `σ`. What a program reads in a
value it did not make itself may be missing or of another kind than it expects; it reads through
functions that answer `none` then, so an `Option (Json σ)` stands for what JavaScript calls an
unknown value, `none` being `undefined`.
-/

namespace Concurrent

/-- A JSON value. The fields of an object are in the order of their insertion. -/
inductive Json (σ : Type) : Type
  | null
  | bool (value : Bool)
  | number (value : ℚ)
  | string (text : σ)
  | array (items : List (Json σ))
  | object (fields : List (σ × Json σ))
deriving Repr

namespace Json

variable {σ : Type}

/-! ## Equality -/

section

variable [DecidableEq σ]

mutual

/-- Two values are compared from the outside in. -/
def decEq : (a b : Json σ) → Decidable (a = b)
  | null, b =>
    match b with
    | null => isTrue rfl
    | bool _ | number _ | string _ | array _ | object _ => isFalse nofun
  | bool x, b =>
    match b with
    | bool y => decidable_of_iff (x = y) (by simp)
    | null | number _ | string _ | array _ | object _ => isFalse nofun
  | number x, b =>
    match b with
    | number y => decidable_of_iff (x = y) (by simp)
    | null | bool _ | string _ | array _ | object _ => isFalse nofun
  | string x, b =>
    match b with
    | string y => decidable_of_iff (x = y) (by simp)
    | null | bool _ | number _ | array _ | object _ => isFalse nofun
  | array xs, b =>
    match b with
    | array ys =>
      let _ := decEqItems xs ys
      decidable_of_iff (xs = ys) (by simp)
    | null | bool _ | number _ | string _ | object _ => isFalse nofun
  | object xs, b =>
    match b with
    | object ys =>
      let _ := decEqFields xs ys
      decidable_of_iff (xs = ys) (by simp)
    | null | bool _ | number _ | string _ | array _ => isFalse nofun

def decEqItems : (as bs : List (Json σ)) → Decidable (as = bs)
  | [], [] => isTrue rfl
  | [], _ :: _ => isFalse nofun
  | _ :: _, [] => isFalse nofun
  | a :: as, b :: bs =>
    let _ := decEq a b
    let _ := decEqItems as bs
    decidable_of_iff (a = b ∧ as = bs) (by simp)

def decEqFields : (as bs : List (σ × Json σ)) → Decidable (as = bs)
  | [], [] => isTrue rfl
  | [], _ :: _ => isFalse nofun
  | _ :: _, [] => isFalse nofun
  | (k, a) :: as, (l, b) :: bs =>
    let _ := decEq a b
    let _ := decEqFields as bs
    decidable_of_iff (k = l ∧ a = b ∧ as = bs) (by simp [and_assoc])

end

instance : DecidableEq (Json σ) := decEq

end

/-! ## Reading -/

/-- The value is an object, and no array. -/
def isRecord : Json σ → Bool
  | object _ => true
  | _ => false

/-- `value[key]`. -/
def get? [DecidableEq σ] (key : σ) : Json σ → Option (Json σ)
  | object fields => fields.lookup key
  | _ => none

def string? : Json σ → Option σ
  | string text => some text
  | _ => none

def number? : Json σ → Option ℚ
  | number value => some value
  | _ => none

def bool? : Json σ → Option Bool
  | bool value => some value
  | _ => none

def array? : Json σ → Option (List (Json σ))
  | array items => some items
  | _ => none

/-- The value itself, if it is an object. -/
def record? : Json σ → Option (Json σ)
  | object fields => some (object fields)
  | _ => none

/-- The strings of an array. -/
def strings (value : Option (Json σ)) : List σ :=
  ((value.bind array?).getD []).filterMap string?

/-! ## Parts -/

mutual

/-- The strings that stand in a value, from left to right, its keys left out. -/
def texts : Json σ → List σ
  | null | bool _ | number _ => []
  | string text => [text]
  | array items => textsOfItems items
  | object fields => textsOfFields fields

def textsOfItems : List (Json σ) → List σ
  | [] => []
  | item :: items => texts item ++ textsOfItems items

def textsOfFields : List (σ × Json σ) → List σ
  | [] => []
  | (_, part) :: fields => texts part ++ textsOfFields fields

end

mutual

/-- The keys of every object in a value, from left to right. -/
def keyLists : Json σ → List (List σ)
  | null | bool _ | number _ | string _ => []
  | array items => keyListsOfItems items
  | object fields => fields.map Prod.fst :: keyListsOfFields fields

def keyListsOfItems : List (Json σ) → List (List σ)
  | [] => []
  | item :: items => keyLists item ++ keyListsOfItems items

def keyListsOfFields : List (σ × Json σ) → List (List σ)
  | [] => []
  | (_, part) :: fields => keyLists part ++ keyListsOfFields fields

end

mutual

/-- A value without what its strings and keys say. -/
def shape : Json σ → Json Unit
  | null => null
  | bool value => bool value
  | number value => number value
  | string _ => string ()
  | array items => array (shapeOfItems items)
  | object fields => object (shapeOfFields fields)

def shapeOfItems : List (Json σ) → List (Json Unit)
  | [] => []
  | item :: items => shape item :: shapeOfItems items

def shapeOfFields : List (σ × Json σ) → List (Unit × Json Unit)
  | [] => []
  | (_, part) :: fields => ((), shape part) :: shapeOfFields fields

end

/-! ## Text -/

mutual

/-- `String(value)`. -/
def text : Json String → String
  | null => "null"
  | bool value => toString value
  | number value => toString value
  | string text => text
  | array items => ",".intercalate (textItems items)
  | object _ => "[object Object]"

/-- In the text of an array, a missing value is empty. -/
def textItems : List (Json String) → List String
  | [] => []
  | null :: items => "" :: textItems items
  | item :: items => text item :: textItems items

end

end Json

end Concurrent
