import Mpmt.Dpf.Block

/-!
# DPF keys and their JSON form

`KeyType` of `Bgi16Base` with its `to_json` and `from_json`.  A JSON document
is the tree the JSON library works on; its text form is the library's.
Decoding fills a key object that already exists, so it takes that object's
earlier contents.
-/

namespace Mpmt
namespace Dpf

/-- The JSON values a key is made of. -/
inductive Json
  | num (value : UInt64)
  | str (text : List Char)
  | arr (elements : List Json)
  | obj (fields : List (String × Json))

namespace Json

/-- `j.at(name)` on an object. -/
def atField : Json -> String -> Except DecodeError Json
  | .obj fields, name =>
      match fields.lookup name with
      | some value => .ok value
      | none => .error .missingField
  | _, _ => .error .wrongType

/-- `j.at(index)` on an array. -/
def atIndex : Json -> Nat -> Except DecodeError Json
  | .arr elements, index =>
      match elements[index]? with
      | some value => .ok value
      | none => .error .missingField
  | _, _ => .error .wrongType

/-- `j.get<std::string>()`. -/
def getString : Json -> Except DecodeError (List Char)
  | .str text => .ok text
  | _ => .error .wrongType

/-- `j.get_to(uint64_t&)`. -/
def getUInt64 : Json -> Except DecodeError UInt64
  | .num value => .ok value
  | _ => .error .wrongType

end Json

/-- `Bgi16Base<ELL_IN, ELL_OUT>::KeyType`. -/
structure KeyType (ellIn : Nat) where
  stOrigin : Block
  cws : Fin ellIn -> Dir -> Block
  cwLast : UInt64
  keyL : Bytes16
  keyR : Bytes16

namespace KeyType

/-- `key.cws[layer][dir]` at a layer given by a loop counter. -/
def cw (key : KeyType ellIn) (layer : Nat) (dir : Dir) : Block :=
  if inside : layer < ellIn then key.cws ⟨layer, inside⟩ dir else 0

@[simp] theorem cw_of_lt
    (key : KeyType ellIn)
    (inside : layer < ellIn)
    (dir : Dir) :
    key.cw layer dir = key.cws ⟨layer, inside⟩ dir := by
  simp [cw, inside]

/-- One row of the `"cws"` array. -/
def rowJson (key : KeyType ellIn) (layer : Fin ellIn) : Json :=
  .arr [.str (m128iToHexString (key.cws layer L)),
    .str (m128iToHexString (key.cws layer R))]

/-- `to_json`.  An object is a `std::map`, so its fields are in key order. -/
def to_json (key : KeyType ellIn) : Json :=
  .obj [("cwLast", .num key.cwLast),
    ("cws", .arr ((List.finRange ellIn).map key.rowJson)),
    ("keyL", .str (bytesToHexString key.keyL)),
    ("keyR", .str (bytesToHexString key.keyR)),
    ("stOrigin", .str (m128iToHexString key.stOrigin))]

/-- `hexStringToM128i(row.at(d).get<std::string>())`. -/
def cellFromJson (row : Json) (column : Nat) : Except DecodeError Block := do
  let cell ← row.atIndex column
  let text ← cell.getString
  hexStringToM128i text

/-- The loop of `from_json` over the rows of `"cws"`. -/
def cwsFromJson (cws_json : Json) :
    List (Fin ellIn) -> (Fin ellIn -> Dir -> Block) ->
      Except DecodeError (Fin ellIn -> Dir -> Block)
  | [], cws => .ok cws
  | layer :: rest, cws => do
      let row ← cws_json.atIndex layer.val
      let left ← cellFromJson row 0
      let right ← cellFromJson row 1
      cwsFromJson cws_json rest
        (Function.update cws layer fun dir => if dir then right else left)

/-- `from_json`, decoding into the key object `key`. -/
def from_json (j : Json) (key : KeyType ellIn) :
    Except DecodeError (KeyType ellIn) := do
  let originText ← (← j.atField "stOrigin").getString
  let stOrigin ← hexStringToM128i originText
  let cws ← cwsFromJson (← j.atField "cws") (List.finRange ellIn) key.cws
  let cwLast ← (← j.atField "cwLast").getUInt64
  let textL ← (← j.atField "keyL").getString
  let keyL ← hexStringToBytes textL key.keyL
  let textR ← (← j.atField "keyR").getString
  let keyR ← hexStringToBytes textR key.keyR
  return { stOrigin, cws, cwLast, keyL, keyR }

@[simp] theorem cellFromJson_rowJson_left
    (key : KeyType ellIn)
    (layer : Fin ellIn) :
    cellFromJson (key.rowJson layer) 0 = .ok (key.cws layer L) := by
  simp [cellFromJson, rowJson, Json.atIndex, Json.getString, bind,
    Except.bind]

@[simp] theorem cellFromJson_rowJson_right
    (key : KeyType ellIn)
    (layer : Fin ellIn) :
    cellFromJson (key.rowJson layer) 1 = .ok (key.cws layer R) := by
  simp [cellFromJson, rowJson, Json.atIndex, Json.getString, bind,
    Except.bind]

/-- The row loop replaces exactly the rows it is given. -/
theorem cwsFromJson_rows
    (key : KeyType ellIn)
    (layers : List (Fin ellIn))
    (cws : Fin ellIn -> Dir -> Block) :
    cwsFromJson (.arr ((List.finRange ellIn).map key.rowJson)) layers cws =
      .ok fun layer => if layer ∈ layers then key.cws layer else cws layer := by
  induction layers generalizing cws with
  | nil => simp [cwsFromJson]
  | cons first rest inductionHypothesis =>
      have row : Json.atIndex (.arr ((List.finRange ellIn).map key.rowJson))
          first.val = .ok (key.rowJson first) := by
        simp [Json.atIndex]
      rw [cwsFromJson]
      simp only [row, bind, Except.bind, cellFromJson_rowJson_left,
        cellFromJson_rowJson_right]
      rw [inductionHypothesis]
      congr 1
      funext layer dir
      by_cases same : layer = first
      · subst layer
        by_cases again : first ∈ rest <;> cases dir <;> simp [again]
      · simp [same]

/-- Decoding an encoded key gives the key back, whatever the object held. -/
theorem from_json_to_json (key old : KeyType ellIn) :
    from_json key.to_json old = .ok key := by
  simp [from_json, to_json, Json.atField, Json.getString, Json.getUInt64,
    List.lookup, cwsFromJson_rows, bind, Except.bind, pure, Except.pure]

end KeyType
end Dpf
end Mpmt
