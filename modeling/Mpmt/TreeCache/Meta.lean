import Mathlib.Data.Finset.Sort
import Mathlib.Data.Nat.Digits.Lemmas
import Mathlib.Order.Interval.Finset.Nat
import Mpmt.PyJson

/-!
# The metadata file of a tree cache

What `meta.json` holds, how `_TreeCache` writes it and every check its
constructor makes when it reads the file back.
-/

namespace Mpmt
namespace TreeCache

/-- Exceptions of `_TreeCache`.  `UnknownToken` is a `KeyError` and
`InternalNode` a `ValueError` about the token they show. -/
inductive PyError
  | RuntimeError (message : String)
  | TypeError (message : String)
  | ValueError (message : String)
  | KeyError (key : String)
  | UnknownToken (token : String)
  | InternalNode (token : String)
  | FileError (path : String)
  deriving DecidableEq, Repr

/-! ## `str` and `int` -/

/-- The decimal digits of a number. -/
def decimal (n : Nat) : List Char :=
  if n = 0 then ['0'] else (Nat.digits 10 n).reverse.map Nat.digitChar

/-- `str(node_id)`. -/
def pyStr (n : Nat) : String := String.ofList (decimal n)

/-- `str` and `int` convert so many digits at most.  The limit is
`sys.get_int_max_str_digits()`, and `none` stands for its value 0, where there
is no limit. -/
def convertible (max_str_digits : Option Nat) (digits : Nat) : Bool :=
  match max_str_digits with
  | none => true
  | some most => digits ≤ most

/-- The zeros of the decimal digits of Unicode.  The other nine digits follow
each of them in order. -/
def decimalZeros : List Nat :=
  [0x30, 0x660, 0x6F0, 0x7C0, 0x966, 0x9E6, 0xA66, 0xAE6, 0xB66, 0xBE6, 0xC66,
    0xCE6, 0xD66, 0xDE6, 0xE50, 0xED0, 0xF20, 0x1040, 0x1090, 0x17E0, 0x1810,
    0x1946, 0x19D0, 0x1A80, 0x1A90, 0x1B50, 0x1BB0, 0x1C40, 0x1C50, 0xA620,
    0xA8D0, 0xA900, 0xA9D0, 0xA9F0, 0xAA50, 0xABF0, 0xFF10, 0x104A0, 0x10D30,
    0x11066, 0x110F0, 0x11136, 0x111D0, 0x112F0, 0x11450, 0x114D0, 0x11650,
    0x116C0, 0x11730, 0x118E0, 0x11950, 0x11C50, 0x11D50, 0x11DA0, 0x16A60,
    0x16AC0, 0x16B50, 0x1D7CE, 0x1D7D8, 0x1D7E2, 0x1D7EC, 0x1D7F6, 0x1E140,
    0x1E2F0, 0x1E950, 0x1FBF0]

/-- The white space of Unicode behind the ASCII characters. -/
def isUnicodeSpace (c : Char) : Bool :=
  [0x85, 0xA0, 0x1680, 0x2028, 0x2029, 0x202F, 0x205F, 0x3000].contains c.toNat ||
    (0x2000 ≤ c.toNat && c.toNat ≤ 0x200A)

/-- What `int` reads in place of a character: a space for white space, an ASCII
digit for a decimal digit, and for everything else behind the ASCII characters
one that stands in no number. -/
def toAscii (c : Char) : Char :=
  if c.toNat < 127 then c
  else if isUnicodeSpace c then ' '
  else match decimalZeros.find? fun zero => zero ≤ c.toNat && c.toNat ≤ zero + 9 with
    | some zero => Nat.digitChar (c.toNat - zero)
    | none => '?'

/-- The ASCII characters that `int` strips: the space and U+0009 to U+000D. -/
def isPySpace (c : Char) : Bool :=
  c.toNat == 32 || (9 ≤ c.toNat && c.toNat ≤ 13)

/-- The value of an ASCII digit. -/
def digitOf (c : Char) : Option Nat :=
  if 48 ≤ c.toNat ∧ c.toNat ≤ 57 then some (c.toNat - 48) else none

/-- The digits of `int`, where one underscore may stand between two digits;
`joined` tells that the last character was a digit. -/
def pyDigits (joined : Bool) (value : Nat) : List Char -> Option Nat
  | [] => if joined then some value else none
  | c :: rest =>
      if c = '_' then
        if joined then pyDigits false value rest else none
      else match digitOf c with
        | some digit => pyDigits true (10 * value + digit) rest
        | none => none

/-- A number without its sign.  Underscores do not count as digits. -/
def pyNat (max_str_digits : Option Nat) (digits : List Char) : Option Nat :=
  if convertible max_str_digits (digits.countP (· ≠ '_')) then
    pyDigits false 0 digits
  else none

/-- `int(text)`, where `none` stands for a `ValueError`. -/
def pyInt (max_str_digits : Option Nat) (text : String) : Option Int :=
  let ascii := text.toList.map toAscii
  let stripped := ((ascii.dropWhile isPySpace).reverse.dropWhile
    isPySpace).reverse
  match stripped with
  | '-' :: rest => (pyNat max_str_digits rest).map fun (value : Nat) => -(value : Int)
  | '+' :: rest => (pyNat max_str_digits rest).map fun (value : Nat) => (value : Int)
  | rest => (pyNat max_str_digits rest).map fun (value : Nat) => (value : Int)

/-! ## Writing -/

/-- The maps of a tree cache: which token stands for which node of the heap,
and the leaves that have changed since the last merge. -/
structure Maps where
  leaf_num : Nat
  phi_f : Dict String Nat
  phi_r : Dict Nat String
  dirty_leaf : Finset Nat

/-- The document that `_mark_corrupted` and `_mark_valid` dump. -/
def metaData (state : String) (bf_size ell_root : Nat) (maps : Maps) : PyJson :=
  .dict [
    ("state", .str state),
    ("bf_size", .int bf_size),
    ("ell_root", .int ell_root),
    ("leaf_num", .int maps.leaf_num),
    ("phi_f", .dict (maps.phi_f.entries.map fun (token, node_id) =>
      (token, .int node_id))),
    ("phi_r", .dict (maps.phi_r.entries.map fun (node_id, token) =>
      (pyStr node_id, .str token))),
    ("dirty_leaf", .list ((maps.dirty_leaf.sort (· ≤ ·)).map fun (node_id : Nat) =>
      .int node_id))]

/-- `str` converts every node id. -/
def Maps.printable (max_str_digits : Option Nat) (maps : Maps) : Bool :=
  maps.phi_r.entries.all fun (node_id, _) =>
    convertible max_str_digits (decimal node_id).length

/-! ## Reading -/

/-- The check of `bf_size` and `ell_root`: an integer equal to the requested
value. -/
def checkInt
    (meta_data : Dict String PyJson)
    (name : String)
    (requested : Nat) : Except PyError Unit :=
  match meta_data.get? name with
  | none => .error (.RuntimeError s!"meta.json is missing {name}")
  | some (.int value) =>
      if value ≠ requested then
        .error (.ValueError (s!"{name} mismatch: meta.json contains {value}, " ++
          s!"but {requested} was requested"))
      else .ok ()
  | some _ => .error (.TypeError s!"meta.json {name} is not an integer")

/-- The fields that are read behind the two sizes. -/
def required : List String :=
  ["state", "leaf_num", "phi_f", "phi_r", "dirty_leaf"]

/-- A field that is known to be there. -/
def field (meta_data : Dict String PyJson) (name : String) :
    Except PyError PyJson :=
  match meta_data.get? name with
  | some value => .ok value
  | none => .error (.RuntimeError "meta.json is missing required fields")

def readState : PyJson -> Except PyError Unit
  | .str "valid" => .ok ()
  | _ => .error (.RuntimeError "TreeCache state is not valid")

def readLeafNum : PyJson -> Except PyError Nat
  | .int value =>
      if value < 0 then
        .error (.RuntimeError "leaf_num is not a valid non-negative integer")
      else .ok value.toNat
  | _ => .error (.RuntimeError "leaf_num is not a valid non-negative integer")

/-- `phi_f` and `phi_r` are objects. -/
def readDict (name : String) : PyJson -> Except PyError (Dict String PyJson)
  | .dict fields => .ok (pyDict fields)
  | _ => .error (.RuntimeError s!"{name} is not a JSON object")

def readList : PyJson -> Except PyError (List PyJson)
  | .list elements => .ok elements
  | _ => .error (.RuntimeError "dirty_leaf is not a JSON array")

def readIds : List PyJson -> Except PyError (List Int)
  | [] => .ok []
  | .int node_id :: rest => do
      let rest ← readIds rest
      return node_id :: rest
  | _ => .error (.RuntimeError "dirty_leaf contains a non-integer node_id")

/-- The dirty nodes are leaves. -/
def checkDirty (leaf_num : Nat) (ids : List Int) : Except PyError Unit :=
  if leaf_num = 0 then
    if ids ≠ [] then
      .error (.RuntimeError "dirty_leaf must be empty when leaf_num is zero")
    else .ok ()
  else if ids.any fun node_id =>
      node_id < leaf_num || node_id > 2 * leaf_num - 1 then
    .error (.RuntimeError "dirty_leaf contains a non-leaf node_id")
  else .ok ()

/-- The loop over `phi_f`. -/
def readPhiF :
    List (String × PyJson) -> Dict String Nat -> Finset Nat ->
      Except PyError (Dict String Nat)
  | [], new_phi_f, _ => .ok new_phi_f
  | (token, .int node_id) :: rest, new_phi_f, used_node_ids =>
      if node_id < 0 then
        .error (.RuntimeError "phi_f value is not a valid non-negative integer")
      else if node_id.toNat ∈ used_node_ids then
        .error (.RuntimeError "phi_f contains duplicate node_id")
      else readPhiF rest (new_phi_f.set token node_id.toNat)
        (insert node_id.toNat used_node_ids)
  | _, _, _ =>
      .error (.RuntimeError "phi_f value is not a valid non-negative integer")

/-- The loop over `phi_r`. -/
def readPhiR (max_str_digits : Option Nat) :
    List (String × PyJson) -> Dict Nat String ->
      Except PyError (Dict Nat String)
  | [], new_phi_r => .ok new_phi_r
  | (raw_node_id, value) :: rest, new_phi_r =>
      match pyInt max_str_digits raw_node_id with
      | none => .error (.RuntimeError "phi_r key is not a valid integer")
      | some node_id =>
          if node_id < 0 then
            .error (.RuntimeError "phi_r key is negative")
          else match value with
            | .str token =>
                if node_id.toNat ∈ new_phi_r then
                  .error (.RuntimeError "phi_r contains duplicate node_id")
                else readPhiR max_str_digits rest
                    (new_phi_r.set node_id.toNat token)
            | _ => .error (.RuntimeError "phi_r value is not a string")

/-- `expected_node_count`. -/
def nodeCount (leaf_num : Nat) : Nat :=
  if leaf_num = 0 then 0 else 2 * leaf_num - 1

/-- The two maps undo each other and number the nodes from one. -/
def checkMaps (maps : Maps) : Except PyError Unit :=
  let expected := nodeCount maps.leaf_num
  if maps.phi_f.size ≠ maps.phi_r.size then
    .error (.RuntimeError "phi_f and phi_r have different lengths")
  else if maps.phi_f.entries.any fun (token, node_id) =>
      maps.phi_r.get? node_id ≠ some token then
    .error (.RuntimeError "phi_f and phi_r are not mutual inverses")
  else if (maps.phi_r.entries.map Prod.fst).toFinset ≠
      Finset.Icc 1 expected then
    .error (.RuntimeError ("node_id sequence is invalid: expected " ++
      s!"consecutive integers from 1 to {expected}"))
  else .ok ()

/-- The validation of the constructor, on what `json.load` returned. -/
def loadMeta (max_str_digits : Option Nat) (bf_size ell_root : Nat) :
    PyJson -> Except PyError Maps
  | .dict fields => do
      let meta_data := pyDict fields
      checkInt meta_data "bf_size" bf_size
      checkInt meta_data "ell_root" ell_root
      forM required fun name => discard (field meta_data name)
      readState (← field meta_data "state")
      let leaf_num ← readLeafNum (← field meta_data "leaf_num")
      let phi_f ← readDict "phi_f" (← field meta_data "phi_f")
      let phi_r ← readDict "phi_r" (← field meta_data "phi_r")
      let raw_dirty_leaf ← readList (← field meta_data "dirty_leaf")
      let ids ← readIds raw_dirty_leaf
      checkDirty leaf_num ids
      let new_phi_f ← readPhiF phi_f.entries ∅ ∅
      let new_phi_r ← readPhiR max_str_digits phi_r.entries ∅
      let maps := {
        leaf_num := leaf_num
        phi_f := new_phi_f
        phi_r := new_phi_r
        dirty_leaf := (ids.map Int.toNat).toFinset : Maps }
      checkMaps maps
      return maps
  | _ => .error (.RuntimeError "meta.json is not a JSON object")

/-! ## Numbers are read back -/

private theorem digitOf_digitChar (small : digit < 10) :
    digitOf (Nat.digitChar digit) = some digit := by
  rw [digitOf, Nat.toNat_digitChar_of_lt_ten small, if_pos (by omega)]
  congr 1
  omega

private theorem digitChar_ne_underscore (small : digit < 10) :
    Nat.digitChar digit ≠ '_' := by
  intro equal
  have value := Nat.toNat_digitChar_of_lt_ten small
  rw [equal] at value
  have underscore : '_'.toNat = 95 := rfl
  omega

/-- Digits are read from the most significant one. -/
private theorem pyDigits_map_digitChar
    (digits : List Nat)
    (small : ∀ digit ∈ digits, digit < 10)
    (value : Nat) :
    pyDigits true value (digits.map Nat.digitChar) =
      some (digits.foldl (fun value digit => 10 * value + digit) value) := by
  induction digits generalizing value with
  | nil => rfl
  | cons digit rest inductionHypothesis =>
      obtain ⟨first, later⟩ := List.forall_mem_cons.mp small
      rw [List.map_cons, pyDigits, if_neg (digitChar_ne_underscore first),
        digitOf_digitChar first]
      exact inductionHypothesis later _

private theorem foldl_digits (n : Nat) :
    (Nat.digits 10 n).reverse.foldl (fun value digit => 10 * value + digit) 0 =
      n := by
  rw [List.foldl_reverse]
  have exact : ∀ digits : List Nat,
      digits.foldr (fun digit value => 10 * value + digit) 0 =
        Nat.ofDigits 10 digits := by
    intro digits
    induction digits with
    | nil => rfl
    | cons digit rest inductionHypothesis =>
        rw [List.foldr_cons, inductionHypothesis, Nat.ofDigits_cons]
        simp [Nat.add_comm]
  rw [exact, Nat.ofDigits_digits]

/-- The characters of a decimal number are digits. -/
private theorem decimal_digit (n : Nat) :
    ∀ c ∈ decimal n, 48 ≤ c.toNat ∧ c.toNat ≤ 57 := by
  intro c member
  unfold decimal at member
  split at member
  · rw [List.mem_singleton.mp member]
    decide
  · obtain ⟨digit, inDigits, rfl⟩ := List.mem_map.mp member
    have small := Nat.digits_lt_base (by omega) (List.mem_reverse.mp inDigits)
    rw [Nat.toNat_digitChar_of_lt_ten small]
    omega

private theorem decimal_ne_nil (n : Nat) : decimal n ≠ [] := by
  unfold decimal
  split
  · simp
  · next positive =>
      simpa using Nat.digits_ne_nil_iff_ne_zero.mpr positive

private theorem pyDigits_decimal (n : Nat) :
    pyDigits false 0 (decimal n) = some n := by
  unfold decimal
  split
  · next zero =>
      rw [zero]
      rfl
  · next positive =>
      have small : ∀ digit ∈ (Nat.digits 10 n).reverse, digit < 10 :=
        fun digit member =>
          Nat.digits_lt_base (by omega) (List.mem_reverse.mp member)
      have folded := foldl_digits n
      cases digits : (Nat.digits 10 n).reverse with
      | nil =>
          exact absurd (List.reverse_eq_nil_iff.mp digits)
            (Nat.digits_ne_nil_iff_ne_zero.mpr positive)
      | cons digit rest =>
          rw [digits] at small folded
          obtain ⟨first, later⟩ := List.forall_mem_cons.mp small
          rw [List.map_cons, pyDigits, if_neg (digitChar_ne_underscore first),
            digitOf_digitChar first]
          simp only
          rw [pyDigits_map_digitChar rest later]
          exact congrArg some folded

private theorem dropWhile_isPySpace
    {cs : List Char}
    (digits : ∀ c ∈ cs, 48 ≤ c.toNat ∧ c.toNat ≤ 57) :
    cs.dropWhile isPySpace = cs := by
  cases cs with
  | nil => rfl
  | cons c rest =>
      have digit := digits c (by simp)
      apply List.dropWhile_cons_of_neg
      simp [isPySpace]
      omega

private theorem map_toAscii
    {cs : List Char}
    (digits : ∀ c ∈ cs, 48 ≤ c.toNat ∧ c.toNat ≤ 57) : cs.map toAscii = cs := by
  refine (List.map_congr_left fun c member => ?_).trans (List.map_id cs)
  have digit := digits c member
  rw [toAscii, if_pos (by omega), id]

/-- Every character of a decimal number counts. -/
private theorem countP_decimal (n : Nat) :
    (decimal n).countP (· ≠ '_') = (decimal n).length := by
  refine List.countP_eq_length.mpr fun c member => decide_eq_true ?_
  rintro rfl
  have digit := decimal_digit n _ member
  have underscore : '_'.toNat = 95 := rfl
  omega

private theorem pyNat_decimal
    {max_str_digits : Option Nat}
    (fits : convertible max_str_digits (decimal n).length) :
    pyNat max_str_digits (decimal n) = some n := by
  rw [pyNat, countP_decimal, if_pos fits, pyDigits_decimal]

/-- A node id that `str` converts survives the way through the keys of
`phi_r`. -/
theorem pyInt_pyStr
    {max_str_digits : Option Nat}
    (fits : convertible max_str_digits (decimal n).length) :
    pyInt max_str_digits (pyStr n) = some (n : Int) := by
  have digits := decimal_digit n
  have reversed : ∀ c ∈ (decimal n).reverse, 48 ≤ c.toNat ∧ c.toNat ≤ 57 :=
    fun c member => digits c (List.mem_reverse.mp member)
  unfold pyInt pyStr
  rw [String.toList_ofList, map_toAscii digits]
  dsimp only
  rw [dropWhile_isPySpace digits, dropWhile_isPySpace reversed, List.reverse_reverse]
  cases shape : decimal n with
  | nil => exact absurd shape (decimal_ne_nil n)
  | cons c rest =>
      have digit := digits c (by simp [shape])
      have notMinus : c ≠ '-' := by
        rintro rfl
        have minus : '-'.toNat = 45 := rfl
        omega
      have notPlus : c ≠ '+' := by
        rintro rfl
        have plus : '+'.toNat = 43 := rfl
        omega
      have value := pyNat_decimal fits
      rw [shape] at value
      split
      · next same => exact absurd (List.cons.inj same).1 notMinus
      · next same => exact absurd (List.cons.inj same).1 notPlus
      · rw [value]
        rfl

/-- Thin spaces and digits of other scripts are read, but no control
characters. -/
example : pyInt (some 4300) "\u2009-\u0661_0 " = some (-10) ∧
    pyInt (some 4300) "\u001C7" = none := by
  decide +kernel

end TreeCache
end Mpmt
