import Mpmt.Library.Dict

/-!
# Values of `json.load`

What the programs in Python read of a JSON document, and which of these values
count as true.
-/

namespace Mpmt

/-- A JSON document.  A float is given by its `repr`, and the fields of an object
are listed as they stand in the text. -/
inductive PyJson
  | null
  | bool (value : Bool)
  | int (value : Int)
  | float (text : String)
  | str (text : String)
  | list (elements : List PyJson)
  | dict (fields : List (String × PyJson))
  deriving Repr

/-- The dictionary that `json.load` makes of the fields of an object: a repeated
key keeps its first place and its last value. -/
def pyDict (fields : List (String × PyJson)) : Dict String PyJson :=
  (∅ : Dict String PyJson).setAll fields

namespace PyJson

/-- `bool(value)` -/
def truthy : PyJson -> Bool
  | .null => false
  | .bool value => value
  | .int value => value ≠ 0
  | .float text => text ≠ "0.0" ∧ text ≠ "-0.0"
  | .str text => text ≠ ""
  | .list elements => !elements.isEmpty
  | .dict fields => !fields.isEmpty

mutual

/-- Values are compared constructor by constructor. -/
def decEq : (first second : PyJson) -> Decidable (first = second)
  | .null, .null => isTrue rfl
  | .bool value, .bool value' =>
      decidable_of_iff (value = value') (by simp)
  | .int value, .int value' => decidable_of_iff (value = value') (by simp)
  | .float text, .float text' => decidable_of_iff (text = text') (by simp)
  | .str text, .str text' => decidable_of_iff (text = text') (by simp)
  | .list elements, .list elements' =>
      have := decEqList elements elements'
      decidable_of_iff (elements = elements') (by simp)
  | .dict fields, .dict fields' =>
      have := decEqFields fields fields'
      decidable_of_iff (fields = fields') (by simp)
  | .null, .bool _ | .null, .int _ | .null, .float _ | .null, .str _ | .null, .list _
  | .null, .dict _ | .bool _, .null | .bool _, .int _ | .bool _, .float _ | .bool _, .str _
  | .bool _, .list _ | .bool _, .dict _ | .int _, .null | .int _, .bool _ | .int _, .float _
  | .int _, .str _ | .int _, .list _ | .int _, .dict _ | .float _, .null | .float _, .bool _
  | .float _, .int _ | .float _, .str _ | .float _, .list _ | .float _, .dict _
  | .str _, .null | .str _, .bool _ | .str _, .int _ | .str _, .float _ | .str _, .list _
  | .str _, .dict _ | .list _, .null | .list _, .bool _ | .list _, .int _ | .list _, .float _
  | .list _, .str _ | .list _, .dict _ | .dict _, .null | .dict _, .bool _ | .dict _, .int _
  | .dict _, .float _ | .dict _, .str _ | .dict _, .list _ => isFalse nofun

def decEqList : (first second : List PyJson) -> Decidable (first = second)
  | [], [] => isTrue rfl
  | value :: rest, value' :: rest' =>
      have := decEq value value'
      have := decEqList rest rest'
      decidable_of_iff (value = value' ∧ rest = rest') (by simp)
  | [], _ :: _ | _ :: _, [] => isFalse nofun

def decEqFields : (first second : List (String × PyJson)) -> Decidable (first = second)
  | [], [] => isTrue rfl
  | (key, value) :: rest, (key', value') :: rest' =>
      have := decEq value value'
      have := decEqFields rest rest'
      decidable_of_iff ((key = key' ∧ value = value') ∧ rest = rest') (by simp)
  | [], _ :: _ | _ :: _, [] => isFalse nofun

end

instance : DecidableEq PyJson := decEq

end PyJson
end Mpmt
