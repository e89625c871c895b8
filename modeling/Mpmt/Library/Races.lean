import Mathlib.Data.List.Nodup
import Mathlib.Logic.Function.Basic

/-!
# Workers that change shared cells

Every worker goes through a list of changes.  A change loads a cell and stores
what it computes from the cell; another worker may come between the two.  A
cell that one worker alone changes ends up as if that worker had run by itself.
A cell that two workers change can lose a change.
-/

namespace Races

/-- A change of a cell: what is stored is computed from what was loaded. -/
structure Change (A W : Type) where
  cell : A
  value : W -> W

/-- What is stored does not depend on what was loaded. -/
def Change.Blind (change : Change A W) : Prop := ∀ w w', change.value w = change.value w'

/-- A change in one step. -/
def Change.apply [DecidableEq A] (change : Change A W) (cells : A -> W) : A -> W :=
  Function.update cells change.cell (change.value (cells change.cell))

/-- The cells, what every worker has still to change, and what it has loaded
for the first of its changes. -/
structure Machine (I A W : Type) where
  cells : A -> W
  todo : I -> List (Change A W)
  loaded : I -> Option W

section

variable {I A W : Type} [DecidableEq I] [DecidableEq A]

namespace Machine

/-- Workers that have not loaded anything yet. -/
def begin (cells : A -> W) (todo : I -> List (Change A W)) : Machine I A W :=
  ⟨cells, todo, fun _ => none⟩

/-- The next step of worker `i`: it loads the cell or stores the new value. -/
def step (m : Machine I A W) (i : I) : Machine I A W :=
  match m.todo i, m.loaded i with
  | [], _ => m
  | first :: _, none =>
      { m with loaded := Function.update m.loaded i (some (m.cells first.cell)) }
  | first :: rest, some w =>
      { cells := Function.update m.cells first.cell (first.value w)
        todo := Function.update m.todo i rest
        loaded := Function.update m.loaded i none }

/-- The workers take turns as the schedule says. -/
def run (m : Machine I A W) (schedule : List I) : Machine I A W :=
  schedule.foldl step m

/-- Every worker is through. -/
def Finished (m : Machine I A W) : Prop := ∀ i, m.todo i = []

variable {m : Machine I A W} {i j : I} {a : A}

@[simp] theorem run_nil (m : Machine I A W) : m.run [] = m := rfl

@[simp] theorem run_cons (m : Machine I A W) (i : I) (schedule : List I) :
    m.run (i :: schedule) = (m.step i).run schedule := rfl

theorem run_append (m : Machine I A W) (first second : List I) :
    m.run (first ++ second) = (m.run first).run second :=
  List.foldl_append

/-! ## One step -/

/-- What a step can do: nothing behind the last change, a load, or a store. -/
theorem step_cases (m : Machine I A W) (i : I) :
    (m.todo i = [] ∧ m.step i = m) ∨
      (∃ first rest, m.todo i = first :: rest ∧ m.loaded i = none ∧
        m.step i =
          { m with loaded := Function.update m.loaded i (some (m.cells first.cell)) }) ∨
      ∃ first rest w, m.todo i = first :: rest ∧ m.loaded i = some w ∧
        m.step i =
          { cells := Function.update m.cells first.cell (first.value w)
            todo := Function.update m.todo i rest
            loaded := Function.update m.loaded i none } := by
  unfold step
  cases todo : m.todo i with
  | nil => exact .inl ⟨rfl, rfl⟩
  | cons first rest =>
      cases loaded : m.loaded i with
      | none => exact .inr (.inl ⟨first, rest, rfl, rfl, rfl⟩)
      | some w => exact .inr (.inr ⟨first, rest, w, rfl, rfl, rfl⟩)

theorem step_load
    {first : Change A W}
    {rest : List (Change A W)}
    (todo : m.todo i = first :: rest)
    (loaded : m.loaded i = none) :
    m.step i =
      { m with loaded := Function.update m.loaded i (some (m.cells first.cell)) } := by
  simp only [step, todo, loaded]

theorem step_store
    {first : Change A W}
    {rest : List (Change A W)}
    {w : W}
    (todo : m.todo i = first :: rest)
    (loaded : m.loaded i = some w) :
    m.step i =
      { cells := Function.update m.cells first.cell (first.value w)
        todo := Function.update m.todo i rest
        loaded := Function.update m.loaded i none } := by
  simp only [step, todo, loaded]

/-- A step of one worker leaves the others where they are. -/
theorem step_other (m : Machine I A W) (different : j ≠ i) :
    (m.step i).todo j = m.todo j ∧ (m.step i).loaded j = m.loaded j := by
  obtain ⟨-, same⟩ | ⟨first, rest, -, -, same⟩ | ⟨first, rest, w, -, -, same⟩ :=
    m.step_cases i
  · rw [same]
    exact ⟨rfl, rfl⟩
  · rw [same]
    exact ⟨rfl, Function.update_of_ne different _ _⟩
  · rw [same]
    exact ⟨Function.update_of_ne different _ _, Function.update_of_ne different _ _⟩

theorem run_other
    (m : Machine I A W)
    (schedule : List I)
    (different : ∀ i ∈ schedule, j ≠ i) :
    (m.run schedule).todo j = m.todo j ∧ (m.run schedule).loaded j = m.loaded j := by
  induction schedule generalizing m with
  | nil => exact ⟨rfl, rfl⟩
  | cons i rest inductionHypothesis =>
      obtain ⟨first, later⟩ := List.forall_mem_cons.mp different
      have before := m.step_other first
      have behind := inductionHypothesis (m.step i) later
      exact ⟨behind.1.trans before.1, behind.2.trans before.2⟩

/-- The changes of a worker only become fewer. -/
theorem todo_step_subset (m : Machine I A W) (i j : I) :
    (m.step i).todo j ⊆ m.todo j := by
  by_cases different : j = i
  · subst different
    obtain ⟨-, same⟩ | ⟨first, rest, -, -, same⟩ | ⟨first, rest, w, todo, -, same⟩ :=
      m.step_cases j
    · rw [same]
      exact List.Subset.refl _
    · rw [same]
      exact List.Subset.refl _
    · rw [same]
      simp [todo]
  · rw [(m.step_other different).1]
    exact List.Subset.refl _

/-! ## A cell of one worker -/

/-- What the changes of one worker make of the cell `a`. -/
def settle (a : A) (changes : List (Change A W)) (w : W) : W :=
  changes.foldl (fun w change => if change.cell = a then change.value w else w) w

@[simp] theorem settle_nil (a : A) (w : W) : settle a [] w = w := rfl

theorem settle_cons (a : A) (first : Change A W) (rest : List (Change A W)) (w : W) :
    settle a (first :: rest) w =
      settle a rest (if first.cell = a then first.value w else w) := rfl

/-- No worker but `i` changes the cell `a`, and what `i` has loaded of it is
what it holds. -/
structure Owns (m : Machine I A W) (i : I) (a : A) : Prop where
  alone : ∀ j, j ≠ i -> ∀ change ∈ m.todo j, change.cell ≠ a
  current : ∀ first rest w, m.todo i = first :: rest -> m.loaded i = some w ->
    first.cell = a -> w = m.cells a

/-- A step keeps the owner of a cell and what its changes will make of it. -/
theorem Owns.step (owns : m.Owns i a) (j : I) :
    (m.step j).Owns i a ∧
      settle a ((m.step j).todo i) ((m.step j).cells a) = settle a (m.todo i) (m.cells a) := by
  have alone : ∀ k, k ≠ i -> ∀ change ∈ (m.step j).todo k, change.cell ≠ a :=
    fun k different change member =>
      owns.alone k different change (m.todo_step_subset j k member)
  obtain ⟨-, same⟩ | ⟨first, rest, todo, -, same⟩ | ⟨first, rest, w, todo, loaded, same⟩ :=
    m.step_cases j
  · rw [same]
    exact ⟨owns, rfl⟩
  · refine ⟨⟨alone, ?_⟩, by rw [same]⟩
    rw [same]
    intro first' rest' w todo' loaded here
    by_cases mine : i = j
    · subst mine
      obtain ⟨rfl, -⟩ : first = first' ∧ rest = rest' := by simpa [todo] using todo'
      have isCell : m.cells first.cell = w := by simpa using loaded
      rw [← isCell, here]
    · exact owns.current first' rest' w todo'
        (by simpa [Function.update_of_ne mine] using loaded) here
  · by_cases mine : i = j
    · subst mine
      refine ⟨⟨alone, ?_⟩, ?_⟩
      · rw [same]
        intro _ _ _ _ loaded'
        simp at loaded'
      · rw [same, todo, settle_cons]
        simp only [Function.update_self]
        by_cases here : first.cell = a
        · rw [if_pos here, here, Function.update_self,
            owns.current first rest w todo loaded here]
        · rw [if_neg here, Function.update_of_ne (Ne.symm here)]
    · have elsewhere : a ≠ first.cell :=
        (owns.alone j (Ne.symm mine) first (by simp [todo])).symm
      refine ⟨⟨alone, ?_⟩, ?_⟩
      · rw [same]
        intro first' rest' w' todo' loaded' here
        simp only [Function.update_of_ne mine] at todo' loaded'
        simp only [Function.update_of_ne elsewhere]
        exact owns.current first' rest' w' todo' loaded' here
      · rw [same]
        simp only [Function.update_of_ne mine, Function.update_of_ne elsewhere]

theorem Owns.run (owns : m.Owns i a) (schedule : List I) :
    (m.run schedule).Owns i a ∧
      settle a ((m.run schedule).todo i) ((m.run schedule).cells a) =
        settle a (m.todo i) (m.cells a) := by
  induction schedule generalizing m with
  | nil => exact ⟨owns, rfl⟩
  | cons j rest inductionHypothesis =>
      obtain ⟨stepOwns, stepSame⟩ := owns.step j
      obtain ⟨runOwns, runSame⟩ := inductionHypothesis stepOwns
      exact ⟨runOwns, runSame.trans stepSame⟩

omit [DecidableEq I] [DecidableEq A] in
theorem owns_begin
    {cells : A -> W}
    {todo : I -> List (Change A W)}
    (alone : ∀ j, j ≠ i -> ∀ change ∈ todo j, change.cell ≠ a) : (begin cells todo).Owns i a :=
  ⟨alone, fun _ _ _ _ loaded _ => by simp [begin] at loaded⟩

/-- A cell that one worker alone changes ends up as if that worker had run by
itself, whatever the schedule. -/
theorem cells_of_alone
    {cells : A -> W}
    {todo : I -> List (Change A W)}
    (alone : ∀ j, j ≠ i -> ∀ change ∈ todo j, change.cell ≠ a)
    {schedule : List I}
    (finished : ((begin cells todo).run schedule).Finished) :
    ((begin cells todo).run schedule).cells a = settle a (todo i) (cells a) := by
  have owns : (begin cells todo).Owns i a := owns_begin alone
  have settled := (owns.run schedule).2
  rwa [finished i] at settled

/-! ## A lost change -/

section

variable {V : Type} {part : W -> V} {v : V}

/-- What workers other than `j` have loaded of the cell `a` has `v` as its part,
and no change that they have left to do touches the part. -/
structure Spared (m : Machine I A W) (j : I) (part : W -> V) (a : A) (v : V) : Prop where
  held : ∀ i, i ≠ j -> ∀ first rest w, m.todo i = first :: rest -> m.loaded i = some w ->
    first.cell = a -> part w = v
  spares : ∀ i, i ≠ j -> ∀ change ∈ m.todo i, change.cell = a ->
    ∀ w, part (change.value w) = part w

theorem Spared.spares_step (spared : m.Spared j part a v) (i : I) :
    ∀ k, k ≠ j -> ∀ change ∈ (m.step i).todo k, change.cell = a ->
      ∀ w, part (change.value w) = part w :=
  fun k different change member =>
    spared.spares k different change (m.todo_step_subset i k member)

/-- Worker `j` does nothing to the others. -/
theorem Spared.step_self (spared : m.Spared j part a v) : (m.step j).Spared j part a v := by
  refine ⟨?_, spared.spares_step j⟩
  intro i different first rest w todo loaded
  rw [(m.step_other different).1] at todo
  rw [(m.step_other different).2] at loaded
  exact spared.held i different first rest w todo loaded

theorem Spared.run_self (spared : m.Spared j part a v) (turns : Nat) :
    (m.run (List.replicate turns j)).Spared j part a v := by
  induction turns generalizing m with
  | zero => exact spared
  | succ turns inductionHypothesis => exact inductionHypothesis spared.step_self

/-- What another worker stores brings the part back. -/
theorem Spared.store
    (spared : m.Spared j part a v)
    (different : i ≠ j)
    {first : Change A W}
    {rest : List (Change A W)}
    {w : W}
    (todo : m.todo i = first :: rest)
    (loaded : m.loaded i = some w)
    (here : first.cell = a) :
    (m.step i).Spared j part a v ∧ part ((m.step i).cells a) = v := by
  refine ⟨⟨?_, spared.spares_step i⟩, ?_⟩
  · intro k others first' rest' w' todo' loaded' here'
    by_cases mine : k = i
    · subst mine
      simp [step_store todo loaded] at loaded'
    · rw [(m.step_other mine).1] at todo'
      rw [(m.step_other mine).2] at loaded'
      exact spared.held k others first' rest' w' todo' loaded' here'
  · rw [step_store todo loaded, ← here]
    simp only [Function.update_self]
    rw [spared.spares i different first (by simp [todo]) here,
      spared.held i different first rest w todo loaded here]

/-- A step of another worker keeps the part. -/
theorem Spared.step
    (spared : m.Spared j part a v)
    (cell : part (m.cells a) = v)
    (different : i ≠ j) :
    (m.step i).Spared j part a v ∧ part ((m.step i).cells a) = v := by
  obtain ⟨-, same⟩ | ⟨first, rest, todo, -, same⟩ | ⟨first, rest, w, todo, loaded, same⟩ :=
    m.step_cases i
  · rw [same]
    exact ⟨spared, cell⟩
  · refine ⟨⟨?_, spared.spares_step i⟩, by rw [same]; exact cell⟩
    intro k others first' rest' w todo' loaded here
    by_cases mine : k = i
    · subst mine
      rw [same] at todo' loaded
      obtain ⟨rfl, -⟩ : first = first' ∧ rest = rest' := by simpa [todo] using todo'
      have isCell : m.cells first.cell = w := by simpa using loaded
      rw [← isCell, here]
      exact cell
    · rw [(m.step_other mine).1] at todo'
      rw [(m.step_other mine).2] at loaded
      exact spared.held k others first' rest' w todo' loaded here
  · by_cases here : first.cell = a
    · exact spared.store different todo loaded here
    · refine ⟨⟨?_, spared.spares_step i⟩, ?_⟩
      · intro k others first' rest' w' todo' loaded' here'
        by_cases mine : k = i
        · subst mine
          simp [same] at loaded'
        · rw [(m.step_other mine).1] at todo'
          rw [(m.step_other mine).2] at loaded'
          exact spared.held k others first' rest' w' todo' loaded' here'
      · rw [same]
        simpa only [Function.update_of_ne (Ne.symm here)] using cell

/-- So does a run, as long as worker `j` is through or has no turn. -/
theorem Spared.run
    (spared : m.Spared j part a v)
    (cell : part (m.cells a) = v)
    (schedule : List I)
    (through : j ∈ schedule -> m.todo j = []) :
    (m.run schedule).Spared j part a v ∧ part ((m.run schedule).cells a) = v := by
  induction schedule generalizing m with
  | nil => exact ⟨spared, cell⟩
  | cons i rest inductionHypothesis =>
      by_cases mine : i = j
      · subst mine
        have finished := through List.mem_cons_self
        have same : m.step i = m := by simp [Machine.step, finished]
        rw [run_cons, same]
        exact inductionHypothesis spared cell fun _ => finished
      · obtain ⟨stepSpared, stepCell⟩ := spared.step cell mine
        refine inductionHypothesis stepSpared stepCell fun member => ?_
        rw [(m.step_other (Ne.symm mine)).1]
        exact through (List.mem_cons_of_mem _ member)

end

/-! ### Running a worker to its end -/

/-- Turns of one worker until it has made the changes `done`. -/
theorem run_replicate
    (idle : m.loaded i = none)
    {done rest : List (Change A W)}
    (todo : m.todo i = done ++ rest) :
    (m.run (List.replicate (2 * done.length) i)).todo i = rest ∧
      (m.run (List.replicate (2 * done.length) i)).loaded i = none := by
  induction done generalizing m with
  | nil => exact ⟨todo, idle⟩
  | cons first done inductionHypothesis =>
      have two : 2 * (first :: done).length = 2 * done.length + 1 + 1 := by
        rw [List.length_cons]
        omega
      have load := step_load todo idle
      have store : (m.step i).step i = _ :=
        step_store (w := m.cells first.cell) (by rw [load]; exact todo)
          (by rw [load]; exact Function.update_self _ _ _)
      rw [two, List.replicate_succ, List.replicate_succ, run_cons, run_cons]
      apply inductionHypothesis
      · rw [store]
        exact Function.update_self _ _ _
      · rw [store]
        exact Function.update_self _ _ _

theorem exists_run_todo_nil (m : Machine I A W) (i : I) :
    ∃ turns, (m.run (List.replicate turns i)).todo i = [] := by
  cases loaded : m.loaded i with
  | none => exact ⟨_, (run_replicate loaded (List.append_nil _).symm).1⟩
  | some w =>
      cases todo : m.todo i with
      | nil => exact ⟨0, todo⟩
      | cons first rest =>
          have store := step_store todo loaded
          have idle : (m.step i).loaded i = none := by
            rw [store]
            exact Function.update_self _ _ _
          have left : (m.step i).todo i = rest ++ [] := by
            rw [store, List.append_nil]
            exact Function.update_self _ _ _
          exact ⟨2 * rest.length + 1, (run_replicate idle left).1⟩

theorem todo_run_nil
    (finished : m.todo i = [])
    (schedule : List I) : (m.run schedule).todo i = [] := by
  induction schedule generalizing m with
  | nil => exact finished
  | cons j rest inductionHypothesis =>
      apply inductionHypothesis
      have fewer := m.todo_step_subset j i
      rw [finished] at fewer
      exact List.subset_nil.mp fewer

/-- Finitely many workers can be run until they are through. -/
theorem exists_run_finished
    (m : Machine I A W)
    (workers : List I)
    (others : ∀ i, i ∉ workers -> m.todo i = []) :
    ∃ schedule, (m.run schedule).Finished := by
  induction workers generalizing m with
  | nil => exact ⟨[], fun i => others i List.not_mem_nil⟩
  | cons i rest inductionHypothesis =>
      obtain ⟨turns, through⟩ := m.exists_run_todo_nil i
      obtain ⟨schedule, finished⟩ :=
        inductionHypothesis (m.run (List.replicate turns i)) fun j outside => by
          by_cases same : j = i
          · rwa [same]
          · exact todo_run_nil (others j (by simp [same, outside])) _
      exact ⟨List.replicate turns i ++ schedule, by rwa [run_append]⟩

/-- Worker `i` loads a cell, worker `j` goes through all its changes, and then
`i` stores: what `j` did to a part of the cell that the other changes spare is
lost. -/
theorem exists_lost
    {V : Type}
    {part : W -> V}
    (cells : A -> W)
    (todo : I -> List (Change A W))
    (workers : List I)
    (others : ∀ k, k ∉ workers -> todo k = [])
    (different : i ≠ j)
    {change : Change A W}
    (member : change ∈ todo i)
    (spares : ∀ k, k ≠ j -> ∀ other ∈ todo k, other.cell = change.cell ->
      ∀ w, part (other.value w) = part w) :
    ∃ schedule, ((begin cells todo).run schedule).Finished ∧
      part (((begin cells todo).run schedule).cells change.cell) =
        part (cells change.cell) := by
  obtain ⟨done, rest, split⟩ := List.append_of_mem member
  have spared : (begin cells todo).Spared j part change.cell (part (cells change.cell)) :=
    ⟨fun _ _ _ _ _ _ loaded => by simp [begin] at loaded, spares⟩
  -- `i` comes to the change and loads its cell
  generalize reachedEq : (begin cells todo).run (List.replicate (2 * done.length) i) = reached
  obtain ⟨atChange, idle⟩ : reached.todo i = change :: rest ∧ reached.loaded i = none := by
    rw [← reachedEq]
    exact run_replicate rfl split
  obtain ⟨reachedSpared, reachedCell⟩ :
      reached.Spared j part change.cell (part (cells change.cell)) ∧
        part (reached.cells change.cell) = part (cells change.cell) := by
    rw [← reachedEq]
    exact spared.run rfl _ fun turn => absurd (List.eq_of_mem_replicate turn).symm different
  have load := step_load atChange idle
  obtain ⟨loadedSpared, -⟩ := reachedSpared.step reachedCell different
  -- `j` goes through its changes
  obtain ⟨turns, through⟩ := (reached.step i).exists_run_todo_nil j
  have stays := (reached.step i).run_other (List.replicate turns j)
    fun k turn => by rwa [List.eq_of_mem_replicate turn]
  have behindSpared := loadedSpared.run_self turns
  generalize behindEq : (reached.step i).run (List.replicate turns j) = behind at *
  -- `i` stores, and all the others follow
  have todo' : behind.todo i = change :: rest := by
    rw [stays.1, load]
    exact atChange
  have loaded' : behind.loaded i = some (reached.cells change.cell) := by
    rw [stays.2, load]
    exact Function.update_self _ _ _
  obtain ⟨storedSpared, storedCell⟩ := behindSpared.store different todo' loaded' rfl
  have storedThrough : (behind.step i).todo j = [] := by
    rw [(behind.step_other (Ne.symm different)).1, through]
  obtain ⟨before, isRun⟩ : ∃ before, (begin cells todo).run before = behind.step i := by
    refine ⟨List.replicate (2 * done.length) i ++ i :: (List.replicate turns j ++ [i]), ?_⟩
    rw [run_append, reachedEq, run_cons, run_append, behindEq]
    rfl
  obtain ⟨schedule, finished⟩ := (behind.step i).exists_run_finished workers fun k outside => by
    rw [← isRun]
    exact todo_run_nil (m := begin cells todo) (others k outside) _
  refine ⟨before ++ schedule, ?_⟩
  rw [run_append, isRun]
  exact ⟨finished, (storedSpared.run storedCell schedule fun _ => storedThrough).2⟩

/-! ## Changes that do not depend on what was loaded -/

omit [DecidableEq A] in
/-- The first change of one worker stands among all that is left to do. -/
theorem flatMap_update_perm
    {workers : List I}
    (distinct : workers.Nodup)
    (member : i ∈ workers)
    {todo : I -> List (Change A W)}
    {first : Change A W}
    {rest : List (Change A W)}
    (isTodo : todo i = first :: rest) :
    (first :: workers.flatMap (Function.update todo i rest)).Perm (workers.flatMap todo) := by
  obtain ⟨before, behind, rfl⟩ := List.append_of_mem member
  have elsewhere : ∀ k ∈ before ++ behind, Function.update todo i rest k = todo k := by
    intro k inside
    refine Function.update_of_ne ?_ _ _
    rintro rfl
    exact (List.nodup_middle.mp distinct).notMem inside
  have first' := List.flatMap_congr fun k inside =>
    elsewhere k (List.mem_append_left behind inside)
  have last := List.flatMap_congr fun k inside =>
    elsewhere k (List.mem_append_right before inside)
  rw [List.flatMap_append, List.flatMap_append, List.flatMap_cons, List.flatMap_cons, first',
    last, Function.update_self, isTodo, List.cons_append]
  exact List.perm_middle.symm

/-- The changes of a run take effect one after the other, if what they store
does not depend on what they loaded. -/
theorem exists_order_run
    {workers : List I}
    (distinct : workers.Nodup)
    (others : ∀ i, i ∉ workers -> m.todo i = [])
    (blind : ∀ i, ∀ change ∈ m.todo i, change.Blind)
    (schedule : List I) :
    ∃ order : List (Change A W),
      (order ++ workers.flatMap (m.run schedule).todo).Perm (workers.flatMap m.todo) ∧
        (m.run schedule).cells = order.foldl (fun cells change => change.apply cells) m.cells := by
  induction schedule generalizing m with
  | nil => exact ⟨[], List.Perm.refl _, rfl⟩
  | cons i rest inductionHypothesis =>
      obtain ⟨order, perm, cells⟩ := inductionHypothesis (m := m.step i)
        (fun k outside => todo_run_nil (others k outside) [i])
        (fun k change member => blind k change (m.todo_step_subset i k member))
      obtain ⟨-, same⟩ | ⟨first, later, -, -, same⟩ | ⟨first, later, w, todo, -, same⟩ :=
        m.step_cases i
      · rw [same] at perm cells
        exact ⟨order, by rwa [run_cons, same], by rwa [run_cons, same]⟩
      · refine ⟨order, perm.trans ?_, ?_⟩
        · rw [same]
        · rw [run_cons, cells, same]
      · have inside : i ∈ workers := by
          by_contra outside
          simp [others i outside] at todo
        have isBlind := blind i first (by simp [todo])
        refine ⟨first :: order, ?_, ?_⟩
        · rw [run_cons, List.cons_append]
          refine (perm.cons first).trans ?_
          rw [same]
          exact flatMap_update_perm distinct inside todo
        · rw [run_cons, cells, same, List.foldl_cons, Change.apply, isBlind w]

theorem exists_order
    {workers : List I}
    (distinct : workers.Nodup)
    (others : ∀ i, i ∉ workers -> m.todo i = [])
    (blind : ∀ i, ∀ change ∈ m.todo i, change.Blind)
    {schedule : List I}
    (finished : (m.run schedule).Finished) :
    ∃ order : List (Change A W), order.Perm (workers.flatMap m.todo) ∧
      (m.run schedule).cells = order.foldl (fun cells change => change.apply cells) m.cells := by
  obtain ⟨order, perm, cells⟩ := exists_order_run distinct others blind schedule
  have none : workers.flatMap (m.run schedule).todo = [] :=
    List.flatMap_eq_nil_iff.mpr fun i _ => finished i
  rw [none, List.append_nil] at perm
  exact ⟨order, perm, cells⟩

end Machine

end

end Races
