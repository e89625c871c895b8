import Mathlib.Data.Nat.Digits.Lemmas
import Mpmt.Dpf.Key

/-!
# The text of a JSON document

A compact JSON text for the values a key is made of, as bytes, and a parser
that reads it back.  Strings hold ASCII characters that need no escape, which
is all that keys contain.
-/

namespace Mpmt
namespace Dpf

/-- ASCII code of a character. -/
def charByte (c : Char) : UInt8 := UInt8.ofNat c.toNat

/-- Character with a code. -/
def byteChar (byte : UInt8) : Char := Char.ofNat byte.toNat

/-- Characters that stand for themselves in a string. -/
def Unescaped (c : Char) : Prop := c.toNat < 128 ∧ c ≠ '"' ∧ c ≠ '\\'

instance (c : Char) : Decidable (Unescaped c) :=
  inferInstanceAs (Decidable (_ ∧ _))

theorem unescaped_of_all
    {text : List Char}
    (all : text.all fun c => decide (Unescaped c)) :
    ∀ c ∈ text, Unescaped c := by
  simpa using all

theorem byteChar_charByte (unescaped : Unescaped c) :
    byteChar (charByte c) = c := by
  have small : c.toNat % 256 = c.toNat :=
    Nat.mod_eq_of_lt (by have := unescaped.1; omega)
  simp [byteChar, charByte, small, Char.ofNat_toNat]

theorem charByte_ne_quote (unescaped : Unescaped c) :
    charByte c ≠ charByte '"' := by
  intro equal
  have back := congrArg byteChar equal
  rw [byteChar_charByte unescaped] at back
  exact unescaped.2.1 back

/-! ## Numbers -/

/-- Decimal digits, most significant first. -/
def dumpNat (n : Nat) : List UInt8 :=
  if n = 0 then [charByte '0']
  else (Nat.digits 10 n).reverse.map fun digit => UInt8.ofNat (48 + digit)

/-- Whether a byte is a decimal digit. -/
def isDigit (byte : UInt8) : Bool := 48 ≤ byte.toNat && byte.toNat ≤ 57

/-- Value of decimal digits. -/
def digitsValue (bytes : List UInt8) : Nat :=
  bytes.foldl (fun value byte => byte.toNat - 48 + 10 * value) 0

theorem isDigit_dumpNat (n : Nat) : ∀ byte ∈ dumpNat n, isDigit byte := by
  intro byte member
  unfold dumpNat at member
  split at member
  · rw [List.mem_singleton.mp member]
    decide
  · obtain ⟨digit, inDigits, rfl⟩ := List.mem_map.mp member
    have small := Nat.digits_lt_base (by omega) (List.mem_reverse.mp inDigits)
    have exact : (48 + digit) % 256 = 48 + digit :=
      Nat.mod_eq_of_lt (by omega)
    simp [isDigit, exact]
    omega

theorem dumpNat_ne_nil (n : Nat) : dumpNat n ≠ [] := by
  unfold dumpNat
  split
  · simp
  · next positive =>
      simpa using Nat.digits_ne_nil_iff_ne_zero.mpr positive

theorem digitsValue_dumpNat (n : Nat) : digitsValue (dumpNat n) = n := by
  unfold dumpNat
  split
  · next zero => rw [zero]; rfl
  · rw [digitsValue, List.foldl_map, List.foldl_reverse]
    have exact : ∀ digits : List Nat, (∀ digit ∈ digits, digit < 10) ->
        digits.foldr (fun digit value =>
          (UInt8.ofNat (48 + digit)).toNat - 48 + 10 * value) 0 =
          Nat.ofDigits 10 digits := by
      intro digits small
      induction digits with
      | nil => rfl
      | cons digit rest inductionHypothesis =>
          obtain ⟨first, later⟩ := List.forall_mem_cons.mp small
          have byte : (48 + digit) % 256 = 48 + digit :=
            Nat.mod_eq_of_lt (by omega)
          rw [List.foldr_cons, inductionHypothesis later, Nat.ofDigits_cons]
          simp [byte]
    rw [exact _ fun digit => Nat.digits_lt_base (by omega),
      Nat.ofDigits_digits]

/-! ## Strings -/

/-- A string between its quotes. -/
def dumpString (text : List Char) : List UInt8 :=
  charByte '"' :: (text.map charByte ++ [charByte '"'])

/-- The rest of a string, up to its closing quote. -/
def parseString : List UInt8 -> Option (List Char × List UInt8)
  | [] => none
  | byte :: rest =>
      if byte = charByte '"' then some ([], rest)
      else (parseString rest).map fun (text, rest) =>
        (byteChar byte :: text, rest)

theorem parseString_dump
    (unescaped : ∀ c ∈ text, Unescaped c)
    (rest : List UInt8) :
    parseString (text.map charByte ++ charByte '"' :: rest) =
      some (text, rest) := by
  induction text with
  | nil => simp [parseString]
  | cons c text inductionHypothesis =>
      obtain ⟨first, later⟩ := List.forall_mem_cons.mp unescaped
      rw [List.map_cons, List.cons_append, parseString,
        if_neg (charByte_ne_quote first), inductionHypothesis later]
      simp [byteChar_charByte first]

/-! ## Documents -/

namespace Json

mutual

/-- `dump`, without white space. -/
def dump : Json -> List UInt8
  | .num value => dumpNat value.toNat
  | .str text => dumpString text
  | .arr [] => [charByte '[', charByte ']']
  | .arr (element :: rest) =>
      charByte '[' :: (dump element ++ dumpElements rest)
  | .obj [] => [charByte '\x7b', charByte '\x7d']
  | .obj ((name, value) :: rest) =>
      charByte '\x7b' :: (dumpString name.toList ++
        charByte ':' :: (dump value ++ dumpFields rest))

/-- An array after its first element. -/
def dumpElements : List Json -> List UInt8
  | [] => [charByte ']']
  | element :: rest => charByte ',' :: (dump element ++ dumpElements rest)

/-- An object after its first field. -/
def dumpFields : List (String × Json) -> List UInt8
  | [] => [charByte '\x7d']
  | (name, value) :: rest =>
      charByte ',' :: (dumpString name.toList ++
        charByte ':' :: (dump value ++ dumpFields rest))

end

mutual

/-- Strings and field names need no escape. -/
def Plain : Json -> Prop
  | .num _ => True
  | .str text => ∀ c ∈ text, Unescaped c
  | .arr elements => PlainElements elements
  | .obj fields => PlainFields fields

def PlainElements : List Json -> Prop
  | [] => True
  | element :: rest => Plain element ∧ PlainElements rest

def PlainFields : List (String × Json) -> Prop
  | [] => True
  | (name, value) :: rest =>
      (∀ c ∈ name.toList, Unescaped c) ∧ Plain value ∧ PlainFields rest

end

mutual

/-- Read one value. -/
def parseValue : Nat -> List UInt8 -> Option (Json × List UInt8)
  | 0, _ => none
  | _ + 1, [] => none
  | fuel + 1, byte :: bytes =>
      if byte = charByte '"' then
        (parseString bytes).map fun (text, rest) => (.str text, rest)
      else if byte = charByte '[' then
        match bytes with
        | [] => none
        | next :: rest =>
            if next = charByte ']' then some (.arr [], rest)
            else (parseElements fuel (next :: rest)).map
              fun (elements, rest) => (.arr elements, rest)
      else if byte = charByte '\x7b' then
        match bytes with
        | [] => none
        | next :: rest =>
            if next = charByte '\x7d' then some (.obj [], rest)
            else (parseFields fuel (next :: rest)).map
              fun (fields, rest) => (.obj fields, rest)
      else if isDigit byte then
        some (.num (UInt64.ofNat (digitsValue
          ((byte :: bytes).takeWhile isDigit))),
          (byte :: bytes).dropWhile isDigit)
      else none

/-- Read the elements of an array that has at least one. -/
def parseElements : Nat -> List UInt8 -> Option (List Json × List UInt8)
  | 0, _ => none
  | fuel + 1, bytes =>
      match parseValue fuel bytes with
      | some (element, byte :: rest) =>
          if byte = charByte ']' then some ([element], rest)
          else if byte = charByte ',' then
            (parseElements fuel rest).map
              fun (elements, rest) => (element :: elements, rest)
          else none
      | _ => none

/-- Read the fields of an object that has at least one. -/
def parseFields : Nat -> List UInt8 ->
    Option (List (String × Json) × List UInt8)
  | 0, _ => none
  | _ + 1, [] => none
  | fuel + 1, byte :: bytes =>
      if byte = charByte '"' then
        match parseString bytes with
        | some (name, colon :: rest) =>
            if colon = charByte ':' then
              match parseValue fuel rest with
              | some (value, byte :: rest) =>
                  if byte = charByte '\x7d' then
                    some ([(String.ofList name, value)], rest)
                  else if byte = charByte ',' then
                    (parseFields fuel rest).map fun (fields, rest) =>
                      ((String.ofList name, value) :: fields, rest)
                  else none
              | _ => none
            else none
        | _ => none
      else none

end

/-- `parse`: one value and nothing after it. -/
def parse (text : List UInt8) : Except DecodeError Json :=
  match parseValue (text.length + 1) text with
  | some (j, []) => .ok j
  | _ => .error .wrongType

/-! ## Round trip -/

/-- What follows a number. -/
def NoDigit (rest : List UInt8) : Prop :=
  ∀ byte tail, rest = byte :: tail -> isDigit byte = false

theorem noDigit_cons (notDigit : isDigit byte = false) :
    NoDigit (byte :: rest) := by
  rintro _ _ ⟨⟩
  exact notDigit

theorem noDigit_dumpElements (elements : List Json) (rest : List UInt8) :
    NoDigit (dumpElements elements ++ rest) := by
  cases elements <;> exact noDigit_cons (by decide)

theorem noDigit_dumpFields
    (fields : List (String × Json))
    (rest : List UInt8) :
    NoDigit (dumpFields fields ++ rest) := by
  cases fields <;> exact noDigit_cons (by decide)

/-- A value starts with a quote, a bracket, a brace or a digit. -/
theorem dump_head (j : Json) :
    ∃ byte tail, dump j = byte :: tail ∧ byte ≠ charByte ']' := by
  cases j with
  | num value =>
      obtain ⟨byte, tail, digits⟩ :=
        List.exists_cons_of_ne_nil (dumpNat_ne_nil value.toNat)
      refine ⟨byte, tail, by rw [dump, digits], ?_⟩
      rintro rfl
      have digit := isDigit_dumpNat value.toNat (charByte ']')
        (by rw [digits]; exact List.mem_cons_self)
      exact absurd digit (by decide)
  | str text => exact ⟨_, _, by rw [dump, dumpString], by decide⟩
  | arr elements =>
      cases elements <;> exact ⟨_, _, by rw [dump], by decide⟩
  | obj fields =>
      rcases fields with _ | ⟨⟨name, value⟩, rest⟩ <;>
        exact ⟨_, _, by rw [dump], by decide⟩

theorem parseValue_num
    (value : UInt64)
    (fuel : Nat)
    (noDigit : NoDigit rest) :
    parseValue (fuel + 1) (dumpNat value.toNat ++ rest) =
      some (.num value, rest) := by
  obtain ⟨byte, tail, digits⟩ :=
    List.exists_cons_of_ne_nil (dumpNat_ne_nil value.toNat)
  have allDigits := isDigit_dumpNat value.toNat
  have digit : isDigit byte = true :=
    allDigits byte (by rw [digits]; exact List.mem_cons_self)
  have other : ∀ mark, isDigit mark = false -> byte ≠ mark := by
    rintro mark notDigit rfl
    rw [digit] at notDigit
    cases notDigit
  have taken : (dumpNat value.toNat ++ rest).takeWhile isDigit =
      dumpNat value.toNat := by
    rw [List.takeWhile_append_of_pos allDigits]
    cases rest with
    | nil => simp
    | cons next more => simp [noDigit next more rfl]
  have dropped : (dumpNat value.toNat ++ rest).dropWhile isDigit = rest := by
    rw [List.dropWhile_append_of_pos allDigits]
    cases rest with
    | nil => rfl
    | cons next more => simp [noDigit next more rfl]
  have whole := digitsValue_dumpNat value.toNat
  rw [digits, List.cons_append] at taken dropped ⊢
  rw [digits] at whole
  simp only [parseValue, other _ (show isDigit (charByte '"') = false from rfl),
    other _ (show isDigit (charByte '[') = false from rfl),
    other _ (show isDigit (charByte '\x7b') = false from rfl), digit, taken,
    dropped, whole, if_true, if_false, UInt64.ofNat_toNat]

/-- With `fuel`, every value whose text is not longer is read back. -/
def ReadsValues (fuel : Nat) : Prop :=
  ∀ (j : Json) (rest : List UInt8), Plain j -> NoDigit rest ->
    (dump j).length ≤ fuel ->
      parseValue fuel (dump j ++ rest) = some (j, rest)

/-- The same for the elements of an array. -/
def ReadsElements (fuel : Nat) : Prop :=
  ∀ (element : Json) (elements : List Json) (rest : List UInt8),
    Plain element -> PlainElements elements ->
      (dump element ++ dumpElements elements).length ≤ fuel ->
        parseElements fuel
            (dump element ++ (dumpElements elements ++ rest)) =
          some (element :: elements, rest)

/-- The same for the fields of an object. -/
def ReadsFields (fuel : Nat) : Prop :=
  ∀ (name : String) (value : Json) (fields : List (String × Json))
    (rest : List UInt8),
    (∀ c ∈ name.toList, Unescaped c) -> Plain value -> PlainFields fields ->
      (dumpString name.toList ++ charByte ':' ::
        (dump value ++ dumpFields fields)).length ≤ fuel ->
        parseFields fuel (dumpString name.toList ++ charByte ':' ::
            (dump value ++ (dumpFields fields ++ rest))) =
          some ((name, value) :: fields, rest)

theorem readsValues_succ
    (readsElements : ReadsElements fuel)
    (readsFields : ReadsFields fuel) : ReadsValues (fuel + 1) := by
  intro j rest plain noDigit enough
  cases j with
  | num value =>
      rw [dump]
      exact parseValue_num value fuel noDigit
  | str text =>
      rw [Plain] at plain
      simp [dump, dumpString, parseValue, parseString_dump plain]
  | arr elements =>
      cases elements with
      | nil => rfl
      | cons element elements =>
          rw [Plain, PlainElements] at plain
          simp only [dump, List.length_cons] at enough
          have read := readsElements element elements rest plain.1 plain.2
            (by omega)
          obtain ⟨byte, tail, head, notClosing⟩ := dump_head element
          rw [head, List.cons_append] at read
          simp only [dump, head, List.cons_append, List.append_assoc,
            parseValue, notClosing, if_false, if_true, read]
          rfl
  | obj fields =>
      rcases fields with _ | ⟨⟨name, value⟩, fields⟩
      · rfl
      · rw [Plain, PlainFields] at plain
        simp only [dump, List.length_cons] at enough
        have read := readsFields name value fields rest plain.1 plain.2.1
          plain.2.2 (by omega)
        simp only [dumpString, List.cons_append, List.append_assoc] at read
        simp only [dump, dumpString, List.cons_append, List.append_assoc,
          parseValue, read]
        rfl

theorem readsElements_succ
    (readsValues : ReadsValues fuel)
    (readsElements : ReadsElements fuel) : ReadsElements (fuel + 1) := by
  intro element elements rest plain later enough
  have closing : 1 ≤ (dumpElements elements).length := by
    cases elements <;> simp [dumpElements]
  rw [List.length_append] at enough
  have read := readsValues element (dumpElements elements ++ rest) plain
    (noDigit_dumpElements _ _) (by omega)
  rw [parseElements, read]
  cases elements with
  | nil => rfl
  | cons next elements =>
      rw [PlainElements] at later
      simp only [dumpElements, List.length_cons] at enough
      have more := readsElements next elements rest later.1 later.2 (by omega)
      simp only [dumpElements, List.cons_append, List.append_assoc, more]
      rfl

theorem readsFields_succ
    (readsValues : ReadsValues fuel)
    (readsFields : ReadsFields fuel) : ReadsFields (fuel + 1) := by
  intro name value fields rest unescaped plain later enough
  have quoted : 2 ≤ (dumpString name.toList).length := by
    simp [dumpString]
  simp only [List.length_append, List.length_cons] at enough
  have read := readsValues value (dumpFields fields ++ rest) plain
    (noDigit_dumpFields _ _) (by omega)
  simp only [dumpString, List.cons_append, List.append_assoc,
    List.nil_append, parseFields, parseString_dump unescaped, read,
    String.ofList_toList]
  rcases fields with _ | ⟨⟨name', value'⟩, fields⟩
  · rfl
  · rw [PlainFields] at later
    simp only [dumpFields, List.length_cons] at enough
    have more := readsFields name' value' fields rest later.1 later.2.1
      later.2.2 (by simp only [List.length_append, List.length_cons] at *; omega)
    simp only [dumpString, List.cons_append, List.append_assoc,
      List.nil_append] at more
    simp only [dumpFields, dumpString, List.cons_append, List.append_assoc,
      List.nil_append, more]
    rfl

theorem reads_all (fuel : Nat) :
    ReadsValues fuel ∧ ReadsElements fuel ∧ ReadsFields fuel := by
  induction fuel with
  | zero =>
      refine ⟨?_, ?_, ?_⟩
      · intro j rest _ _ enough
        obtain ⟨byte, tail, head, _⟩ := dump_head j
        simp [head] at enough
      · intro element elements rest _ _ enough
        obtain ⟨byte, tail, head, _⟩ := dump_head element
        simp [head] at enough
      · intro name value fields rest _ _ _ enough
        simp [dumpString] at enough
  | succ fuel inductionHypothesis =>
      obtain ⟨values, elements, fields⟩ := inductionHypothesis
      exact ⟨readsValues_succ elements fields,
        readsElements_succ values elements, readsFields_succ values fields⟩

/-- Every plain document is read back from its text. -/
theorem parse_dump (plain : Plain j) : parse (dump j) = .ok j := by
  have read := (reads_all ((dump j).length + 1)).1 j [] plain
    (by rintro _ _ ⟨⟩) (by omega)
  rw [List.append_nil] at read
  rw [parse, read]

/-- A non-empty or empty array of documents whose texts have one length. -/
theorem length_dump_arr
    (elements : List Json)
    (same : ∀ element ∈ elements, (dump element).length = size) :
    (dump (.arr elements)).length ≤ (size + 1) * elements.length + 2 := by
  have tail : ∀ elements : List Json,
      (∀ element ∈ elements, (dump element).length = size) ->
      (dumpElements elements).length = (size + 1) * elements.length + 1 := by
    intro elements same
    induction elements with
    | nil => rfl
    | cons element elements inductionHypothesis =>
        obtain ⟨first, later⟩ := List.forall_mem_cons.mp same
        simp only [dumpElements, List.length_cons, List.length_append, first,
          inductionHypothesis later]
        ring
  cases elements with
  | nil => simp [dump]
  | cons element elements =>
      obtain ⟨first, later⟩ := List.forall_mem_cons.mp same
      simp only [dump, List.length_cons, List.length_append, first,
        tail elements later]
      have split : (size + 1) * (elements.length + 1) =
          (size + 1) * elements.length + (size + 1) := Nat.mul_succ _ _
      omega

end Json

/-! ## The text of a key -/

theorem unescaped_hexChar (nibble : UInt8) : Unescaped (hexChar nibble) := by
  have all : ∀ c ∈ HEX_CHARS, Unescaped c := unescaped_of_all (by decide)
  have zero : Unescaped '0' := by decide
  rw [hexChar, List.getD_eq_getElem?_getD]
  cases found : HEX_CHARS[nibble.toNat]? with
  | none => exact zero
  | some c => exact all c (List.mem_of_getElem? found)

theorem unescaped_bytesToHexString (bytes : Bytes16) :
    ∀ c ∈ bytesToHexString bytes, Unescaped c := by
  intro c member
  simp only [bytesToHexString, List.mem_flatMap, hexByte] at member
  obtain ⟨byte, _, inPair⟩ := member
  simp only [List.mem_cons, List.not_mem_nil, or_false] at inPair
  rcases inPair with rfl | rfl <;> exact unescaped_hexChar _

theorem length_dumpString_hex (bytes : Bytes16) :
    (dumpString (bytesToHexString bytes)).length = 34 := by
  simp [dumpString, length_bytesToHexString]

theorem length_dumpNat_word (value : UInt64) :
    (dumpNat value.toNat).length ≤ 20 := by
  unfold dumpNat
  split
  · decide
  · rw [List.length_map, List.length_reverse]
    exact (Nat.digits_length_le_iff (by omega) _).mpr
      (value.toNat_lt.trans (by norm_num))

namespace KeyType

theorem plain_to_json (key : KeyType ellIn) : key.to_json.Plain := by
  have rows : ∀ layers : List (Fin ellIn),
      Json.PlainElements (layers.map key.rowJson) := by
    intro layers
    induction layers with
    | nil => simp [Json.PlainElements]
    | cons layer layers inductionHypothesis =>
        simp only [List.map_cons, Json.PlainElements, rowJson, Json.Plain]
        exact ⟨⟨unescaped_bytesToHexString _, unescaped_bytesToHexString _,
          trivial⟩, inductionHypothesis⟩
  simp only [to_json, Json.Plain, Json.PlainFields]
  exact ⟨unescaped_of_all (by decide), trivial,
    unescaped_of_all (by decide), rows _,
    unescaped_of_all (by decide), unescaped_bytesToHexString _,
    unescaped_of_all (by decide), unescaped_bytesToHexString _,
    unescaped_of_all (by decide), unescaped_bytesToHexString _, trivial⟩

/-- The text of a key is read back. -/
theorem parse_dump_to_json (key : KeyType ellIn) :
    Json.parse key.to_json.dump = .ok key.to_json :=
  Json.parse_dump key.plain_to_json

/-- A row takes 72 bytes with its separator. -/
theorem length_dump_to_json (key : KeyType ellIn) :
    key.to_json.dump.length ≤ 72 * ellIn + 200 := by
  have row : ∀ element ∈ (List.finRange ellIn).map key.rowJson,
      (Json.dump element).length = 71 := by
    intro element member
    obtain ⟨layer, _, rfl⟩ := List.mem_map.mp member
    simp [rowJson, Json.dump, Json.dumpElements, m128iToHexString,
      length_dumpString_hex]
  have rows := Json.length_dump_arr _ row
  rw [List.length_map, List.length_finRange] at rows
  have word := length_dumpNat_word key.cwLast
  have names : (dumpString "cwLast".toList).length = 8 ∧
      (dumpString "cws".toList).length = 5 ∧
      (dumpString "keyL".toList).length = 6 ∧
      (dumpString "keyR".toList).length = 6 ∧
      (dumpString "stOrigin".toList).length = 10 := by decide
  simp only [to_json, Json.dump, Json.dumpFields, m128iToHexString,
    List.length_cons, List.length_append, List.length_nil,
    length_dumpString_hex, names]
  omega

end KeyType
end Dpf
end Mpmt
