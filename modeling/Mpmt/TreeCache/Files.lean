import Mpmt.TreeCache.Cache

/-!
# The files of a tree cache

Different tokens have different files, none of them is `meta.json`, and none of
the tokens that `_new_token` draws has the files of the root.  What the commands
of a cache do when file operations succeed follows from that.
-/

namespace Mpmt
namespace TreeCache

open Effects

/-! ## Paths -/

private theorem append_suffix
    {left right ending : String}
    (same : left ++ ending = right ++ ending) : left = right := by
  have lists := congrArg String.toList same
  rw [String.toList_append, String.toList_append] at lists
  exact String.toList_injective (List.append_cancel_right lists)

/-- Two strings with endings of which the last characters differ. -/
private theorem append_ne
    {left right ending ending' : String}
    (count : Nat)
    (long : count ≤ ending.toList.reverse.length)
    (long' : count ≤ ending'.toList.reverse.length)
    (different : ending.toList.reverse.take count ≠
      ending'.toList.reverse.take count) :
    left ++ ending ≠ right ++ ending' := by
  intro same
  have ends := congrArg (fun s : String => s.toList.reverse.take count) same
  simp only [String.toList_append, List.reverse_append] at ends
  rw [List.take_append_of_le_length long,
    List.take_append_of_le_length long'] at ends
  exact different ends

@[simp]
theorem thisPath_inj : thisPath token = thisPath token' ↔ token = token' :=
  ⟨append_suffix, congrArg _⟩

@[simp]
theorem nxtPath_inj : nxtPath token = nxtPath token' ↔ token = token' :=
  ⟨append_suffix, congrArg _⟩

@[simp]
theorem nxtPath_ne_thisPath (token token' : String) :
    nxtPath token ≠ thisPath token' :=
  append_ne 9 (by decide) (by decide) (by decide)

@[simp]
theorem thisPath_ne_nxtPath (token token' : String) :
    thisPath token ≠ nxtPath token' :=
  (nxtPath_ne_thisPath token' token).symm

@[simp]
theorem thisPath_ne_metaPath (token : String) : thisPath token ≠ metaPath := by
  have split : metaPath = "" ++ "meta.json" := rfl
  rw [split]
  exact append_ne 1 (by decide) (by decide) (by decide)

@[simp]
theorem nxtPath_ne_metaPath (token : String) : nxtPath token ≠ metaPath := by
  have split : metaPath = "" ++ "meta.json" := rfl
  rw [split]
  exact append_ne 1 (by decide) (by decide) (by decide)

@[simp]
theorem metaPath_ne_thisPath (token : String) : metaPath ≠ thisPath token :=
  (thisPath_ne_metaPath token).symm

@[simp]
theorem metaPath_ne_nxtPath (token : String) : metaPath ≠ nxtPath token :=
  (nxtPath_ne_metaPath token).symm

/-- A drawn token is not the name of the root's files. -/
theorem tokenHex_ne_root (draw : Dpf.Bytes16) : tokenHex draw ≠ "root" := by
  intro same
  have lengths := congrArg (fun s : String => s.toList.length) same
  simp only [tokenHex, String.toList_ofList, Dpf.length_bytesToHexString]
    at lengths
  revert lengths
  decide

/-! ## What the directory holds -/

variable {Leaf Root : Type}

namespace World

variable (w : World Leaf Root)

/-- The node that the files of a token hold. -/
def node? (token : String) : Option (ShareVec Leaf) := do
  let this_share ← (w.disk.get? (thisPath token)).bind File.leaf?
  let nxt_share ← (w.disk.get? (nxtPath token)).bind File.leaf?
  return { this_share := this_share, nxt_share := nxt_share }

/-- The root that its files hold. -/
def root? : Option (ShareVec Root) := do
  let this_share ← (w.disk.get? rootThisPath).bind File.root?
  let nxt_share ← (w.disk.get? rootNxtPath).bind File.root?
  return { this_share := this_share, nxt_share := nxt_share }

/-- Both files of the root are there. -/
def hasRoot : Bool :=
  (w.disk.get? rootThisPath).isSome && (w.disk.get? rootNxtPath).isSome

/-- None of the two files of a token is there. -/
def Absent (token : String) : Prop :=
  w.disk.get? (thisPath token) = none ∧ w.disk.get? (nxtPath token) = none

/-- Both files of a token are there. -/
def hasNode (token : String) : Bool :=
  (w.disk.get? (thisPath token)).isSome && (w.disk.get? (nxtPath token)).isSome

/-- The content of `meta.json`. -/
def meta? : Option (File Leaf Root) := w.disk.get? metaPath

def saveNode (token : String) (node : ShareVec Leaf) : World Leaf Root :=
  (w.write (thisPath token) (.leaf node.this_share)).write (nxtPath token)
    (.leaf node.nxt_share)

def saveRoot (root : ShareVec Root) : World Leaf Root :=
  (w.write rootThisPath (.root root.this_share)).write rootNxtPath
    (.root root.nxt_share)

/-- Remove the two files of a token. -/
def unlinkNode (token : String) : World Leaf Root :=
  { w with disk := (w.disk.del (thisPath token)).del (nxtPath token) }

def dumpMeta (value : PyJson) : World Leaf Root :=
  w.write metaPath (.json value)

/-- One more joint call has been made. -/
def called : World Leaf Root := { w with calls := w.calls + 1 }

end World

/-! ## What a write changes -/

section

variable {w : World Leaf Root} {token token' : String}

@[simp]
theorem World.node?_called : w.called.node? token = w.node? token := rfl

@[simp]
theorem World.root?_called : w.called.root? = w.root? := rfl

@[simp]
theorem World.hasRoot_called : w.called.hasRoot = w.hasRoot := rfl

@[simp]
theorem World.meta?_called : w.called.meta? = w.meta? := rfl

@[simp]
theorem World.absent_called : w.called.Absent token ↔ w.Absent token := Iff.rfl

theorem World.node?_saveNode (node : ShareVec Leaf) :
    (w.saveNode token node).node? token' =
      if token' = token then some node else w.node? token' := by
  by_cases same : token' = token
  · simp [node?, saveNode, write, Dict.get?_set, same, File.leaf?]
  · simp [node?, saveNode, write, Dict.get?_set, same]

theorem World.root?_saveNode
    (node : ShareVec Leaf)
    (token_ne : token ≠ "root") : (w.saveNode token node).root? = w.root? := by
  simp [root?, saveNode, write, Dict.get?_set, rootThisPath, rootNxtPath,
    token_ne.symm]

theorem World.hasRoot_saveNode
    (node : ShareVec Leaf)
    (token_ne : token ≠ "root") :
    (w.saveNode token node).hasRoot = w.hasRoot := by
  simp [hasRoot, saveNode, write, Dict.get?_set, rootThisPath, rootNxtPath,
    token_ne.symm]

@[simp]
theorem World.meta?_saveNode (node : ShareVec Leaf) :
    (w.saveNode token node).meta? = w.meta? := by
  simp [meta?, saveNode, write, Dict.get?_set]

theorem World.absent_saveNode
    (node : ShareVec Leaf)
    (different : token' ≠ token) :
    (w.saveNode token node).Absent token' ↔ w.Absent token' := by
  simp [Absent, saveNode, write, Dict.get?_set, different]

theorem World.node?_saveRoot
    (root : ShareVec Root)
    (token_ne : token ≠ "root") :
    (w.saveRoot root).node? token = w.node? token := by
  simp [node?, saveRoot, write, Dict.get?_set, rootThisPath, rootNxtPath,
    token_ne]

@[simp]
theorem World.root?_saveRoot (root : ShareVec Root) :
    (w.saveRoot root).root? = some root := by
  simp [root?, saveRoot, write, Dict.get?_set, rootThisPath, rootNxtPath,
    File.root?]

@[simp]
theorem World.hasRoot_saveRoot (root : ShareVec Root) :
    (w.saveRoot root).hasRoot = true := by
  simp [hasRoot, saveRoot, write, Dict.get?_set, rootThisPath, rootNxtPath]

@[simp]
theorem World.meta?_saveRoot (root : ShareVec Root) :
    (w.saveRoot root).meta? = w.meta? := by
  simp [meta?, saveRoot, write, Dict.get?_set, rootThisPath, rootNxtPath]

theorem World.absent_saveRoot
    (root : ShareVec Root)
    (token_ne : token ≠ "root") :
    (w.saveRoot root).Absent token ↔ w.Absent token := by
  simp [Absent, saveRoot, write, Dict.get?_set, rootThisPath, rootNxtPath,
    token_ne]

theorem World.node?_unlinkNode (different : token' ≠ token) :
    (w.unlinkNode token).node? token' = w.node? token' := by
  simp [node?, unlinkNode, Dict.get?_del, different]

theorem World.root?_unlinkNode (token_ne : token ≠ "root") :
    (w.unlinkNode token).root? = w.root? := by
  simp [root?, unlinkNode, Dict.get?_del, rootThisPath, rootNxtPath,
    token_ne.symm]

theorem World.hasRoot_unlinkNode (token_ne : token ≠ "root") :
    (w.unlinkNode token).hasRoot = w.hasRoot := by
  simp [hasRoot, unlinkNode, Dict.get?_del, rootThisPath, rootNxtPath,
    token_ne.symm]

@[simp]
theorem World.hasRoot_unlinkNode_root :
    (w.unlinkNode "root").hasRoot = false := by
  simp [hasRoot, unlinkNode, Dict.get?_del, rootThisPath]

@[simp]
theorem World.meta?_unlinkNode : (w.unlinkNode token).meta? = w.meta? := by
  simp [meta?, unlinkNode, Dict.get?_del]

theorem World.absent_unlinkNode :
    (w.unlinkNode token).Absent token' ↔ token' = token ∨ w.Absent token' := by
  by_cases same : token' = token
  · simp [Absent, unlinkNode, Dict.get?_del, same]
  · simp [Absent, unlinkNode, Dict.get?_del, same]

@[simp]
theorem World.node?_dumpMeta (value : PyJson) :
    (w.dumpMeta value).node? token = w.node? token := by
  simp [node?, dumpMeta, write, Dict.get?_set]

@[simp]
theorem World.root?_dumpMeta (value : PyJson) :
    (w.dumpMeta value).root? = w.root? := by
  simp [root?, dumpMeta, write, Dict.get?_set, rootThisPath, rootNxtPath]

@[simp]
theorem World.hasRoot_dumpMeta (value : PyJson) :
    (w.dumpMeta value).hasRoot = w.hasRoot := by
  simp [hasRoot, dumpMeta, write, Dict.get?_set, rootThisPath, rootNxtPath]

@[simp]
theorem World.meta?_dumpMeta (value : PyJson) :
    (w.dumpMeta value).meta? = some (.json value) := by
  simp [meta?, dumpMeta, write]

@[simp]
theorem World.absent_dumpMeta (value : PyJson) :
    (w.dumpMeta value).Absent token ↔ w.Absent token := by
  simp [Absent, dumpMeta, write, Dict.get?_set]

end

/-! ## What the commands do -/

section

variable {fns : Functions Leaf Root} {m : Cache Root} {w : World Leaf Root}
variable {token : String} {cfg : Config}

theorem World.node?_eq_some_iff {node : ShareVec Leaf} :
    w.node? token = some node ↔
      (w.disk.get? (thisPath token)).bind File.leaf? = some node.this_share ∧
        (w.disk.get? (nxtPath token)).bind File.leaf? = some node.nxt_share := by
  obtain ⟨this_share, nxt_share⟩ := node
  unfold World.node?
  cases (w.disk.get? (thisPath token)).bind File.leaf? with
  | none => simp
  | some first =>
      cases (w.disk.get? (nxtPath token)).bind File.leaf? with
      | none => simp
      | some second => simp

theorem World.root?_eq_some_iff {root : ShareVec Root} :
    w.root? = some root ↔
      (w.disk.get? rootThisPath).bind File.root? = some root.this_share ∧
        (w.disk.get? rootNxtPath).bind File.root? = some root.nxt_share := by
  obtain ⟨this_share, nxt_share⟩ := root
  unfold World.root?
  cases (w.disk.get? rootThisPath).bind File.root? with
  | none => simp
  | some first =>
      cases (w.disk.get? rootNxtPath).bind File.root? with
      | none => simp
      | some second => simp

private theorem isSome_of_bind
    {file : Option (File Leaf Root)}
    {content : File Leaf Root -> Option Value}
    {value : Value}
    (found : file.bind content = some value) : file.isSome = true := by
  cases file with
  | none => simp at found
  | some file => rfl

theorem World.hasNode_of_node?
    {node : ShareVec Leaf}
    (found : w.node? token = some node) : w.hasNode token = true := by
  obtain ⟨first, second⟩ := World.node?_eq_some_iff.mp found
  rw [World.hasNode, isSome_of_bind first, isSome_of_bind second]
  rfl

theorem World.hasRoot_of_root?
    {root : ShareVec Root}
    (found : w.root? = some root) : w.hasRoot = true := by
  obtain ⟨first, second⟩ := World.root?_eq_some_iff.mp found
  rw [World.hasRoot, isSome_of_bind first, isSome_of_bind second]
  rfl

@[simp]
theorem run_saveNode (node : ShareVec Leaf) :
    run (handler fns) (saveNode token node) (m, w) =
      (.returned (), m, w.saveNode token node) := rfl

@[simp]
theorem run_unlinkNode :
    run (handler fns) (unlinkNode token) (m, w) =
      (.returned (), m, w.unlinkNode token) := rfl

@[simp]
theorem run_saveNewNode (node : ShareVec Leaf) :
    run (handler fns) (saveNewNode token node) (m, w) =
      (.returned (), m, w.saveNode token node) := rfl

@[simp]
theorem run_ringConv (sv : ShareVec Leaf) :
    run (handler fns) (ringConv sv) (m, w) =
      (.returned (), { m with root_node := fns.ring_conv_fn w.calls sv },
        w.called) := rfl

@[simp]
theorem run_saveRoot :
    run (handler fns) saveRoot (m, w) =
      (.returned (), m, w.saveRoot m.root_node) := rfl

@[simp]
theorem run_pathExists (path : String) :
    run (handler fns) (pathExists path) (m, w) =
      (.returned (w.disk.get? path).isSome, m, w) := rfl

@[simp]
theorem run_rootFilesExist :
    run (handler fns) rootFilesExist (m, w) = (.returned w.hasRoot, m, w) := by
  unfold rootFilesExist
  rw [run_bind, run_pathExists]
  cases first : (w.disk.get? rootThisPath).isSome with
  | false => simp [World.hasRoot, first]
  | true => simp [World.hasRoot, first]

@[simp]
theorem run_markCorrupted :
    run (handler fns) (markCorrupted cfg) (m, w) =
      (.returned (), { m with corrupted := true },
        w.dumpMeta (metaData "dirty" cfg.bf_size cfg.ell_root m.toMaps)) := rfl

@[simp]
theorem run_markValid :
    run (handler fns) (markValid cfg) (m, w) =
      (.returned (), { m with corrupted := false },
        w.dumpMeta (metaData "valid" cfg.bf_size cfg.ell_root m.toMaps)) := rfl

theorem run_markValidWithin
    (printable : m.toMaps.printable max_str_digits) :
    run (handler fns) (markValidWithin cfg max_str_digits) (m, w) =
      run (handler fns) (markValid cfg) (m, w) := by
  rw [markValidWithin, run_bind_of_returned run_get, if_pos printable]

theorem run_markValidWithin_of_exceeded
    (exceeded : ¬ m.toMaps.printable max_str_digits) :
    run (handler fns) (markValidWithin cfg max_str_digits) (m, w) =
      (.raised (.ValueError ("Exceeds the limit for integer string conversion; " ++
        "use sys.set_int_max_str_digits() to increase the limit")), m, w) := by
  rw [markValidWithin, run_bind_of_returned run_get, if_neg exceeded]
  rfl

theorem run_checkCorrupted (valid : m.corrupted = false) :
    run (handler fns) checkCorrupted (m, w) = (.returned (), m, w) := by
  simp [checkCorrupted, run_bind, valid]

theorem run_item
    [DecidableEq K]
    {d : Dict K V}
    {key : K}
    {value : V}
    (found : d.get? key = some value)
    (name : String) :
    run (handler fns) (item d key name) (m, w) = (.returned value, m, w) := by
  simp [item, found]

theorem run_delItem
    [DecidableEq K]
    {d : Dict K V}
    {key : K}
    (member : key ∈ d)
    (name : String) :
    run (handler fns) (delItem d key name) (m, w) =
      (.returned (d.del key), m, w) := by
  simp [delItem, member]

theorem World.load_eq
    {path : String}
    {content : File Leaf Root -> Option Value}
    {value : Value}
    (found : (w.disk.get? path).bind content = some value) :
    w.load path content = .ok value := by
  rw [World.load, found]

theorem run_loadNode
    {node : ShareVec Leaf}
    (found : w.node? token = some node) :
    run (handler fns) (loadNode token) (m, w) = (.returned node, m, w) := by
  obtain ⟨first, second⟩ := World.node?_eq_some_iff.mp found
  have first_load : (handler fns).handle (.load_leaf (thisPath token)) w =
      (.ok node.this_share, w) := congrArg (·, w) (World.load_eq first)
  have second_load : (handler fns).handle (.load_leaf (nxtPath token)) w =
      (.ok node.nxt_share, w) := congrArg (·, w) (World.load_eq second)
  unfold loadNode
  rw [run_bind_of_returned (run_call_ok first_load),
    run_bind_of_returned (run_call_ok second_load), run_pure]

/-- The two files of the root are read back. -/
theorem run_loadRoot
    {root : ShareVec Root}
    (found : w.root? = some root) :
    run (handler fns) loadRoot (m, w) =
      (.returned (), { m with root_node := root }, w) := by
  obtain ⟨first, second⟩ := World.root?_eq_some_iff.mp found
  have first_load : (handler fns).handle (.load_root rootThisPath) w =
      (.ok root.this_share, w) := congrArg (·, w) (World.load_eq first)
  have second_load : (handler fns).handle (.load_root rootNxtPath) w =
      (.ok root.nxt_share, w) := congrArg (·, w) (World.load_eq second)
  unfold loadRoot
  rw [run_bind_of_returned (run_call_ok first_load),
    run_bind_of_returned (run_call_ok second_load), run_modify]

end

end TreeCache
end Mpmt
