import Mpmt.Dpf.Block
import Mpmt.Library.Effects
import Mpmt.Library.Heap
import Mpmt.TreeCache.Meta

/-!
# `_TreeCache`

One Agent's cache of the holders' filters and of the merged nodes above them,
as programs over the memory of the cache object and the files of its storage
directory.  `Leaf` and `Root` are the vectors over the two rings, and the merge
and ring conversion functions are commands to the world, which the Agents carry
out together.
-/

namespace Mpmt
namespace TreeCache

open Effects

/-- `ShrRep3ShareVec`. -/
structure ShareVec (Vec : Type) where
  this_share : Vec
  nxt_share : Vec
  deriving DecidableEq, Repr

/-! ## Files -/

def thisPath (token : String) : String := token ++ "_this.mpmtrvp"

def nxtPath (token : String) : String := token ++ "_nxt.mpmtrvp"

def metaPath : String := "meta.json"

def rootThisPath : String := thisPath "root"

def rootNxtPath : String := nxtPath "root"

/-- The content of a file; `torn` is one whose last write stopped early. -/
inductive File (Leaf Root : Type)
  | json (value : PyJson)
  | leaf (value : Leaf)
  | root (value : Root)
  | torn

/-! ## The world -/

section

variable (Leaf Root : Type)

/-- What a cache asks of its surroundings. -/
inductive Command
  | exists (path : String)
  | iterdir
  | json_load (path : String)
  | json_dump (path : String) (value : PyJson)
  | load_leaf (path : String)
  | load_root (path : String)
  | save_leaf (path : String) (value : Leaf)
  | save_root (path : String) (value : Root)
  | unlink (path : String)
  | merge (sva svb : ShareVec Leaf)
  | ring_conv (sv : ShareVec Leaf)

/-- What comes back. -/
def Command.Reply : Command Leaf Root -> Type
  | .exists _ => Bool
  | .iterdir => Bool
  | .json_load _ => PyJson
  | .json_dump _ _ => Unit
  | .load_leaf _ => Leaf
  | .load_root _ => Root
  | .save_leaf _ _ => Unit
  | .save_root _ _ => Unit
  | .unlink _ => Unit
  | .merge _ _ => ShareVec Leaf
  | .ring_conv _ => ShareVec Root

/-- The commands of a cache. -/
abbrev cacheInterface : Interface where
  Cmd := Command Leaf Root
  Reply := Command.Reply Leaf Root

/-- The merge and the conversion, by the number of joint calls so far: the
Agents draw fresh randomness in each. -/
structure Functions where
  merge_fn : Nat -> ShareVec Leaf -> ShareVec Leaf -> ShareVec Leaf
  ring_conv_fn : Nat -> ShareVec Leaf -> ShareVec Root

/-- The storage directory and the number of joint calls. -/
structure World where
  disk : Dict String (File Leaf Root)
  calls : Nat

end

section

variable {Leaf Root : Type}

/-- The content a vector is loaded from. -/
def File.leaf? : File Leaf Root -> Option Leaf
  | .leaf value => some value
  | _ => none

def File.root? : File Leaf Root -> Option Root
  | .root value => some value
  | _ => none

def File.json? : File Leaf Root -> Option PyJson
  | .json value => some value
  | _ => none

/-- A read that fails when the file is missing or holds something else. -/
def World.load
    (w : World Leaf Root)
    (path : String)
    (content : File Leaf Root -> Option Value) : Except PyError Value :=
  match (w.disk.get? path).bind content with
  | some value => .ok value
  | none => .error (.FileError path)

def World.write
    (w : World Leaf Root)
    (path : String)
    (file : File Leaf Root) : World Leaf Root :=
  { w with disk := w.disk.set path file }

/-- A world in which every file operation succeeds that can. -/
def handler (fns : Functions Leaf Root) :
    Handler (cacheInterface Leaf Root) PyError (World Leaf Root) where
  handle
    | .exists path, w => (.ok (w.disk.get? path).isSome, w)
    | .iterdir, w => (.ok !w.disk.entries.isEmpty, w)
    | .json_load path, w => (w.load path File.json?, w)
    | .json_dump path value, w => (.ok (), w.write path (.json value))
    | .load_leaf path, w => (w.load path File.leaf?, w)
    | .load_root path, w => (w.load path File.root?, w)
    | .save_leaf path value, w => (.ok (), w.write path (.leaf value))
    | .save_root path value, w => (.ok (), w.write path (.root value))
    | .unlink path, w => (.ok (), { w with disk := w.disk.del path })
    | .merge sva svb, w =>
        (.ok (fns.merge_fn w.calls sva svb), { w with calls := w.calls + 1 })
    | .ring_conv sv, w =>
        (.ok (fns.ring_conv_fn w.calls sv), { w with calls := w.calls + 1 })

/-! ## The object -/

/-- The memory of a `_TreeCache`. -/
structure Cache (Root : Type) extends Maps where
  corrupted : Bool
  root_node : ShareVec Root

/-- What the constructor is given. -/
structure Config where
  bf_size : Nat
  ell_root : Nat

/-- A program of the cache. -/
abbrev CacheM (Leaf Root : Type) :=
  Prog (cacheInterface Leaf Root) (Cache Root) PyError

/-- `dict[key]`. -/
def item [DecidableEq K] (d : Dict K V) (key : K) (name : String) :
    CacheM Leaf Root V :=
  match d.get? key with
  | some value => pure value
  | none => raise (.KeyError name)

/-- `del dict[key]`. -/
def delItem [DecidableEq K] (d : Dict K V) (key : K) (name : String) :
    CacheM Leaf Root (Dict K V) :=
  if key ∈ d then pure (d.del key) else raise (.KeyError name)

/-! ## Commands by name -/

def pathExists (path : String) : CacheM Leaf Root Bool :=
  call (I := cacheInterface Leaf Root) (.exists path)

/-- `any(storage_path.iterdir())`. -/
def anyFile : CacheM Leaf Root Bool :=
  call (I := cacheInterface Leaf Root) .iterdir

def loadJson : CacheM Leaf Root PyJson :=
  call (I := cacheInterface Leaf Root) (.json_load metaPath)

def dumpMeta (value : PyJson) : CacheM Leaf Root Unit :=
  call (I := cacheInterface Leaf Root) (.json_dump metaPath value)

def unlink (path : String) : CacheM Leaf Root Unit :=
  call (I := cacheInterface Leaf Root) (.unlink path)

/-- Load the two shares of a node. -/
def loadNode (token : String) : CacheM Leaf Root (ShareVec Leaf) := do
  let this_share ←
    call (I := cacheInterface Leaf Root) (.load_leaf (thisPath token))
  let nxt_share ←
    call (I := cacheInterface Leaf Root) (.load_leaf (nxtPath token))
  return { this_share := this_share, nxt_share := nxt_share }

/-- Save the two shares of a node. -/
def saveNode (token : String) (node : ShareVec Leaf) :
    CacheM Leaf Root Unit := do
  call (I := cacheInterface Leaf Root)
    (.save_leaf (thisPath token) node.this_share)
  call (I := cacheInterface Leaf Root)
    (.save_leaf (nxtPath token) node.nxt_share)

/-- `_ring_conv` into `root_node`. -/
def ringConv (sv : ShareVec Leaf) : CacheM Leaf Root Unit := do
  let root_node ← call (I := cacheInterface Leaf Root) (.ring_conv sv)
  modify fun m => { m with root_node := root_node }

/-- Save the two shares of `root_node`. -/
def saveRoot : CacheM Leaf Root Unit := do
  let m ← get
  call (I := cacheInterface Leaf Root)
    (.save_root rootThisPath m.root_node.this_share)
  call (I := cacheInterface Leaf Root)
    (.save_root rootNxtPath m.root_node.nxt_share)

/-- Whether both files of the root exist; the second is not looked for when the
first is missing. -/
def rootFilesExist : CacheM Leaf Root Bool := do
  if ← pathExists rootThisPath then pathExists rootNxtPath else return false

/-! ## Marking -/

section

variable (cfg : Config)

/-- `_mark_corrupted`. -/
def markCorrupted : CacheM Leaf Root Unit := do
  modify fun m => { m with corrupted := true }
  let m ← get
  dumpMeta (metaData "dirty" cfg.bf_size cfg.ell_root m.toMaps)

/-- `_mark_valid`. -/
def markValid : CacheM Leaf Root Unit := do
  let m ← get
  dumpMeta (metaData "valid" cfg.bf_size cfg.ell_root m.toMaps)
  modify fun m => { m with corrupted := false }

/-- `_mark_valid` where `str` converts at most `max_str_digits` digits. -/
def markValidWithin (max_str_digits : Option Nat) : CacheM Leaf Root Unit := do
  let m ← get
  if m.toMaps.printable max_str_digits then markValid cfg
  else raise (.ValueError ("Exceeds the limit for integer string conversion; " ++
    "use sys.set_int_max_str_digits() to increase the limit"))

/-- The check every operation starts with. -/
def checkCorrupted : CacheM Leaf Root Unit := do
  let m ← get
  if m.corrupted then
    raise (.RuntimeError "TreeCache is corrupted and cannot be used")

/-! ## Tokens -/

/-- `secrets.token_hex(16)`. -/
def tokenHex (draw : Dpf.Bytes16) : String :=
  String.ofList (Dpf.bytesToHexString draw)

/-- `_new_token`: draw until the token is new.  `draws` is what the random
source gives, and what is left of it comes back. -/
def freshToken (phi_f : Dict String Nat) :
    List Dpf.Bytes16 -> Option (String × List Dpf.Bytes16)
  | [] => none
  | draw :: draws =>
      if tokenHex draw ∈ phi_f then freshToken phi_f draws
      else some (tokenHex draw, draws)

/-- `_new_token`. -/
def newToken (draws : List Dpf.Bytes16) :
    CacheM Leaf Root (String × List Dpf.Bytes16) := do
  let m ← get
  match freshToken m.phi_f draws with
  | some drawn => pure drawn
  | none => .unfinished

/-- `has_inserted`. -/
def Maps.hasInserted (maps : Maps) (token : String) : Bool :=
  match maps.phi_f.get? token with
  | some node_id => maps.leaf_num ≤ node_id
  | none => false

/-! ## `insert` -/

/-- Save the files of a new leaf; when that fails, remove them again. -/
def saveNewNode (token : String) (node : ShareVec Leaf) :
    CacheM Leaf Root Unit :=
  (saveNode token node).tryExcept fun error => do
    (unlink (thisPath token)).tryExcept fun _ => pure ()
    (unlink (nxtPath token)).tryExcept fun _ => pure ()
    raise error

/-- The first leaf becomes a root. -/
def placeFirst (token : String) : CacheM Leaf Root Unit :=
  modify fun m => { m with
    leaf_num := 1
    phi_r := m.phi_r.set 1 token
    phi_f := m.phi_f.set token 1 }

/-- The first leaf is split into an internal node, itself and the new leaf. -/
def splitFirst (draws : List Dpf.Bytes16) (token : String) :
    CacheM Leaf Root Unit := do
  let m ← get
  let old_leaf_id := m.leaf_num
  let lc_id := old_leaf_id * 2
  let rc_id := lc_id + 1
  let ori_root_token ← item m.phi_r old_leaf_id (pyStr old_leaf_id)
  modify fun m => { m with
    phi_r := m.phi_r.set rc_id token
    phi_f := m.phi_f.set token rc_id }
  let (new_root_token, _) ← newToken draws
  modify fun m => { m with
    phi_r := (m.phi_r.set old_leaf_id new_root_token).set lc_id ori_root_token
    phi_f := (m.phi_f.set new_root_token old_leaf_id).set ori_root_token lc_id
    dirty_leaf :=
      if old_leaf_id ∈ m.dirty_leaf then
        insert lc_id (m.dirty_leaf.erase old_leaf_id)
      else m.dirty_leaf
    leaf_num := m.leaf_num + 1 }

/-- `insert`. -/
def insert (draws : List Dpf.Bytes16) (node : ShareVec Leaf) :
    CacheM Leaf Root String := do
  checkCorrupted
  markCorrupted cfg
  let (token, draws) ← newToken draws
  saveNewNode token node
  let m ← get
  if m.leaf_num = 0 then placeFirst token else splitFirst draws token
  let m ← get
  let node_id ← item m.phi_f token token
  modify fun m => { m with dirty_leaf := Insert.insert node_id m.dirty_leaf }
  markValid cfg
  return token

/-! ## `update` -/

/-- `update`. -/
def update (token : String) (new_node : ShareVec Leaf) :
    CacheM Leaf Root Unit := do
  checkCorrupted
  let m ← get
  match m.phi_f.get? token with
  | none => raise (.UnknownToken token)
  | some node_id =>
      if node_id < m.leaf_num then raise (.InternalNode token)
      else do
        markCorrupted cfg
        saveNode token new_node
        modify fun m =>
          { m with dirty_leaf := Insert.insert node_id m.dirty_leaf }
        markValid cfg

/-! ## `remove` -/

/-- The last leaf goes. -/
def removeLast (del_token : String) : CacheM Leaf Root (Option String) := do
  let m ← get
  let phi_f ← delItem m.phi_f del_token del_token
  let phi_r ← delItem m.phi_r 1 "1"
  modify fun m => { m with
    phi_f := phi_f, phi_r := phi_r, leaf_num := 0, dirty_leaf := ∅ }
  return none

/-- The last internal node collapses: one of its leaves takes its place, and
the other the place of the removed leaf. -/
def collapseLast (del_token : String) (del_id : Nat) :
    CacheM Leaf Root (Option String) := do
  let m ← get
  let collapse_id := m.leaf_num - 1
  let left_id := collapse_id * 2
  let right_id := left_id + 1
  let internal_token ← item m.phi_r collapse_id (pyStr collapse_id)
  let left_token ← item m.phi_r left_id (pyStr left_id)
  let right_token ← item m.phi_r right_id (pyStr right_id)
  let moved := ¬ (del_id = left_id ∨ del_id = right_id)
  let promoted_token := if del_id = left_id then right_token else left_token
  let phi_r := if moved then m.phi_r.set del_id right_token else m.phi_r
  let phi_f := if moved then m.phi_f.set right_token del_id else m.phi_f
  let phi_r ← delItem (phi_r.set collapse_id promoted_token) left_id
    (pyStr left_id)
  let phi_r ← delItem phi_r right_id (pyStr right_id)
  let phi_f ← delItem (phi_f.set promoted_token collapse_id) internal_token
    internal_token
  let phi_f ← delItem phi_f del_token del_token
  modify fun m => { m with
    phi_f := phi_f
    phi_r := phi_r
    leaf_num := m.leaf_num - 1
    dirty_leaf := Insert.insert collapse_id
      (((if moved then Insert.insert del_id m.dirty_leaf
        else m.dirty_leaf).erase left_id).erase right_id) }
  return some internal_token

/-- Remove the files of a node. -/
def unlinkNode (token : String) : CacheM Leaf Root Unit := do
  unlink (thisPath token)
  unlink (nxtPath token)

/-- `remove`. -/
def remove (del_token : String) : CacheM Leaf Root Unit := do
  checkCorrupted
  let m ← get
  match m.phi_f.get? del_token with
  | none => return
  | some del_id =>
      if del_id < m.leaf_num then raise (.InternalNode del_token)
      else do
        markCorrupted cfg
        let removed_internal_token ←
          if m.leaf_num = 1 then removeLast del_token
          else collapseLast del_token del_id
        unlinkNode del_token
        match removed_internal_token with
        | some token => unlinkNode token
        | none => pure ()
        markValid cfg

/-! ## `execute_merge` -/

/-- The proper ancestors of the dirty leaves. -/
def dirtyNodes (dirty_leaf : Finset Nat) : Finset Nat :=
  dirty_leaf.biUnion fun node => (Heap.ancestors node).toFinset

/-- One turn of the loop over the dirty nodes. -/
def mergeNode (node : Nat) : CacheM Leaf Root Unit := do
  let m ← get
  let out_token ← item m.phi_r node (pyStr node)
  let lc_token ← item m.phi_r (node * 2) (pyStr (node * 2))
  let rc_token ← item m.phi_r (node * 2 + 1) (pyStr (node * 2 + 1))
  let lc ← loadNode lc_token
  let rc ← loadNode rc_token
  let out ← call (I := cacheInterface Leaf Root) (.merge lc rc)
  saveNode out_token out
  if node = 1 then do
    ringConv out
    saveRoot

/-- With no leaf left the root is all-zero and has no files. -/
def mergeNone [Zero Root] : CacheM Leaf Root Unit := do
  modify fun m => { m with root_node := { this_share := 0, nxt_share := 0 } }
  unlink rootThisPath
  unlink rootNxtPath
  modify fun m => { m with dirty_leaf := ∅ }

/-- A single leaf is the root. -/
def mergeSingle : CacheM Leaf Root Unit := do
  let root_files_exist ← rootFilesExist
  let m ← get
  if m.dirty_leaf ≠ ∅ ∨ root_files_exist = false then do
    let leaf_token ← item m.phi_r 1 "1"
    let leaf ← loadNode leaf_token
    ringConv leaf
    saveRoot
  modify fun m => { m with dirty_leaf := ∅ }

/-- The ancestors of dirty leaves are merged again, the larger ids first. -/
def mergeTree : CacheM Leaf Root Unit := do
  let m ← get
  let dirty_node := dirtyNodes m.dirty_leaf
  modify fun m => { m with dirty_leaf := ∅ }
  forM (dirty_node.sort (· ≥ ·)) mergeNode

/-- `execute_merge`. -/
def executeMerge [Zero Root] : CacheM Leaf Root Unit := do
  checkCorrupted
  markCorrupted cfg
  let m ← get
  if m.leaf_num = 0 then mergeNone
  else if m.leaf_num = 1 then mergeSingle
  else mergeTree
  markValid cfg

/-! ## The constructor -/

/-- The attributes before `meta.json` is looked at; `root_node` is whatever the
allocated memory holds. -/
def initial (root_node : ShareVec Root) : Cache Root where
  leaf_num := 0
  phi_f := ∅
  phi_r := ∅
  dirty_leaf := ∅
  corrupted := false
  root_node := root_node

/-- An error that leaves the object corrupted. -/
def fail (error : PyError) : CacheM Leaf Root Out := do
  modify fun m => { m with corrupted := true }
  raise error

/-- The root is loaded from its files. -/
def loadRoot : CacheM Leaf Root Unit := do
  let this_share ←
    call (I := cacheInterface Leaf Root) (.load_root rootThisPath)
  let nxt_share ←
    call (I := cacheInterface Leaf Root) (.load_root rootNxtPath)
  modify fun m => { m with
    root_node := { this_share := this_share, nxt_share := nxt_share } }

/-- The root is converted from the files of the root node, if they are there;
otherwise all leaves are dirty. -/
def recoverRoot : CacheM Leaf Root Unit := do
  let m ← get
  let root_token ← item m.phi_r 1 "1"
  let this_exists ← pathExists (thisPath root_token)
  let nxt_exists ← pathExists (nxtPath root_token)
  if this_exists ∧ nxt_exists then do
    let node ← loadNode root_token
    ringConv node
    saveRoot
  else if m.leaf_num = 1 then
    fail (.RuntimeError "root cache and the only leaf cache are incomplete")
  else modify fun m => { m with
    dirty_leaf := m.dirty_leaf ∪ Heap.leafIds m.leaf_num }

/-- `__init__`, from the attributes of `initial` on, where `int` converts at most
`max_str_digits` digits. -/
def constructWithin (max_str_digits : Option Nat) : CacheM Leaf Root Unit := do
  if ← pathExists metaPath then do
    let meta_data ← loadJson.tryExcept fun _ =>
      fail (.RuntimeError "meta.json is malformed or corrupt")
    match loadMeta max_str_digits cfg.bf_size cfg.ell_root meta_data with
    | .error error => fail error
    | .ok maps => do
        modify fun m => { m with toMaps := maps, corrupted := false }
        if 0 < maps.leaf_num then do
          let this_exists ← pathExists rootThisPath
          let nxt_exists ← pathExists rootNxtPath
          if this_exists ∧ nxt_exists then loadRoot else recoverRoot
  else if ← anyFile then
    raise (.RuntimeError ("meta.json is missing, but the storage directory is " ++
      "not empty; the cache may be corrupted. Delete the directory contents " ++
      "manually before creating a new TreeCache."))

/-- `__init__` without a limit on the digits. -/
def construct : CacheM Leaf Root Unit := constructWithin cfg none

end

end

end TreeCache
end Mpmt
