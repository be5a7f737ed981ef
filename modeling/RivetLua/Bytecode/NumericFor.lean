import Mathlib.Algebra.Ring.Nat
import Mathlib.Logic.Function.Iterate
import RivetLua.Bytecode.Shape

namespace RivetLua.Bytecode

open RivetLua.Core Check

/-!
# Bytecode — the verifier's check of numeric-for loops

A `NumericForNext` has to belong to exactly one `NumericForPrepare`, and every path that reaches
it has to have passed the body edge of that prepare.  The body edge of each prepare is split by
an extra node, its *gate*; the check computes the dominator tree of the control-flow graph with
gates and asks that the gate dominates the next instruction.

* `validateNumericForPairs` — the pairing;
* `validateNumericForBodyDominance` — graph, depth-first order, dominators, tree intervals.

Two checks bound the memory of the scratch vectors.  What a vector's capacity is belongs to the
allocator, so it is the parameter `Allocator`.
-/

/-- What the allocator decides about vectors. -/
structure Allocator where
  /-- Capacity of an empty vector after `try_reserve_exact`; `none` when memory runs out. -/
  reserveExact : Nat → Option Nat
  /-- Capacity of a vector created with room for `initial` elements that reached `length`. -/
  capacity : (initial length : Nat) → Nat

/-- The allocator that gives every vector exactly the room it needs. -/
def Allocator.exact : Allocator := ⟨some, max⟩

/-! ### The control-flow graph with gates -/

/-- Is this a numeric-for prepare? -/
def Instruction.isPrepare : Instruction → Bool
  | .numericForPrepare _ _ _ _ _ => true
  | _ => false

/-- Is this a numeric-for next? -/
def Instruction.isNext : Instruction → Bool
  | .numericForNext _ _ _ _ _ _ => true
  | _ => false

/-- The positions of the prepares. -/
def BytecodePrototype.prepareIndices (prototype : BytecodePrototype) : List Nat :=
  (prototype.instructions.zipIdx.filter fun entry => entry.1.instruction.isPrepare).map Prod.snd

/-- The gate of the prepare at an index: gates are numbered behind the instructions. -/
def BytecodePrototype.gate (prototype : BytecodePrototype) (index : Nat) : Option Nat :=
  (prototype.prepareIndices.idxOf? index).map (prototype.instructions.length + ·)

/-- The edges of an instruction. -/
def BytecodePrototype.instructionEdges (prototype : BytecodePrototype) (index : Nat) :
    Instruction → List Nat
  | .jump target => [target.toNat]
  | .jumpIfFalse _ target => target.toNat :: fallThrough
  | .numericForPrepare _ _ _ _ exit => exit.toNat :: (prototype.gate index).toList
  | .numericForNext _ _ _ _ target exit => [target.toNat, exit.toNat]
  | .ret _ _ | .tailCall _ _ _ => []
  | _ => fallThrough
where
  fallThrough : List Nat :=
    if index + 1 < prototype.instructions.length then [index + 1] else []

/-- The edges of every node, gates last. -/
def BytecodePrototype.cfgEdges (prototype : BytecodePrototype) : List (List Nat) :=
  (prototype.instructions.zipIdx.map fun entry =>
      prototype.instructionEdges entry.2 entry.1.instruction)
    ++ prototype.prepareIndices.map fun index => [index + 1]

/-- The predecessors of a node, in the order the edges are listed. -/
def predecessors (edges : List (List Nat)) (node : Nat) : List Nat :=
  edges.zipIdx.flatMap fun entry =>
    (entry.1.filter fun successor => decide (successor = node)).map fun _ => entry.2

/-! ### Depth-first order -/

/-- State of the depth-first search. -/
structure DfsState where
  visited : List Bool
  postorder : List Nat
  /-- Nodes under way, each with the number of its edges that have been followed. -/
  stack : List (Nat × Nat)
  /-- The greatest length the stack had. -/
  peak : Nat

/-- One round of the search. -/
def DfsState.step (edges : List (List Nat)) (s : DfsState) : DfsState :=
  match s.stack with
  | [] => s
  | (node, followed) :: rest =>
    match (edges[node]?.getD [])[followed]? with
    | some successor =>
      if s.visited[successor]?.getD false then
        { s with stack := (node, followed + 1) :: rest }
      else
        let stack := (successor, 0) :: (node, followed + 1) :: rest
        { s with
          visited := s.visited.set successor true
          stack := stack
          peak := max s.peak stack.length }
    | none => { s with stack := rest, postorder := s.postorder ++ [node] }

/-- The search from the entry.  A node is entered once and each of its at most two edges is
    followed once, so the rounds suffice. -/
def dfs (edges : List (List Nat)) : DfsState :=
  Nat.iterate (DfsState.step edges) (3 * edges.length)
    ⟨(List.replicate edges.length false).set 0 true, [], [(0, 0)], 1⟩

/-! ### Dominators -/

/-- The position of a node in reverse postorder; unreachable nodes come last. -/
def orderOf (reverse : List Nat) (node : Nat) : Nat :=
  (reverse.idxOf? node).getD (2 ^ 64 - 1)

/-- The nearest common dominator of two nodes, paying one unit of work for each step up.  The
    node that comes later moves up; two reachable nodes never share a position. -/
def intersect (reverse : List Nat) (idom : List (Option Nat)) :
    Nat → Nat → Nat → Except BytecodeError (Nat × Nat)
  | work, left, right =>
    if left = right then .ok (left, work)
    else
      match work with
      | 0 => .error (limit 0 "RVLU CFG dominator 工作量超過限制")
      | work + 1 =>
        if orderOf reverse right < orderOf reverse left then
          match idom[left]?.join with
          | some up => intersect reverse idom work up right
          | none => .error (verify 0 "RVLU CFG dominator state 無效")
        else
          match idom[right]?.join with
          | some up => intersect reverse idom work left up
          | none => .error (verify 0 "RVLU CFG dominator state 無效")

/-- The common dominator of the predecessors that have one already. -/
def joinPredecessors (reverse : List Nat) (idom : List (Option Nat)) :
    List Nat → Nat → Option Nat → Except BytecodeError (Option Nat × Nat)
  | [], work, candidate => .ok (candidate, work)
  | _ :: _, 0, _ => .error (limit 0 "RVLU CFG dominator 工作量超過限制")
  | predecessor :: rest, work + 1, candidate =>
    match idom[predecessor]?.join, candidate with
    | none, _ => joinPredecessors reverse idom rest work candidate
    | some _, none => joinPredecessors reverse idom rest work (some predecessor)
    | some _, some current =>
      match intersect reverse idom work predecessor current with
      | .ok (common, left) => joinPredecessors reverse idom rest left (some common)
      | .error e => .error e

/-- One pass over the nodes behind the entry; the flag says whether anything changed. -/
def dominatorPass (edges : List (List Nat)) (reverse : List Nat) :
    List Nat → List (Option Nat) → Nat → Bool → Except BytecodeError (List (Option Nat) × Nat × Bool)
  | [], idom, work, changed => .ok (idom, work, changed)
  | node :: rest, idom, work, changed =>
    match joinPredecessors reverse idom (predecessors edges node) work none with
    | .ok (candidate, left) =>
      if idom[node]?.join = candidate then dominatorPass edges reverse rest idom left changed
      else dominatorPass edges reverse rest (idom.set node candidate) left true
    | .error e => .error e

/-- Passes until nothing changes.  A pass that changes something spends work, so the passes run
    out only together with the work. -/
def dominators (edges : List (List Nat)) (reverse : List Nat) :
    Nat → List (Option Nat) → Nat → Except BytecodeError (List (Option Nat))
  | 0, _, _ => .error (limit 0 "RVLU CFG dominator 工作量超過限制")
  | passes + 1, idom, work =>
    match dominatorPass edges reverse (reverse.drop 1) idom work false with
    | .ok (idom', left, true) => dominators edges reverse passes idom' left
    | .ok (idom', _, false) => .ok idom'
    | .error e => .error e

/-- The children of a node in the dominator tree, without the entry itself. -/
def dominatorChildren (idom : List (Option Nat)) (node : Nat) : List Nat :=
  ((idom.zipIdx.drop 1).filter fun entry => decide (entry.1 = some node)).map Prod.snd

/-- State of the walk over the dominator tree. -/
structure TreeWalk where
  entry : List Nat
  exit : List Nat
  tick : Nat
  stack : List (Nat × Bool)
  peak : Nat

/-- One round of the walk: enter a node, or leave it. -/
def TreeWalk.step (idom : List (Option Nat)) (s : TreeWalk) : TreeWalk :=
  match s.stack with
  | [] => s
  | (node, true) :: rest =>
    { s with tick := s.tick + 1, exit := s.exit.set node (s.tick + 1), stack := rest }
  | (node, false) :: rest =>
    let stack := (dominatorChildren idom node).map (·, false) ++ (node, true) :: rest
    { s with
      tick := s.tick + 1
      entry := s.entry.set node (s.tick + 1)
      stack := stack
      peak := max s.peak stack.length }

/-- The intervals of the dominator tree: every node is entered and left once. -/
def treeWalk (idom : List (Option Nat)) : TreeWalk :=
  Nat.iterate (TreeWalk.step idom) (2 * idom.length)
    ⟨List.replicate idom.length 0, List.replicate idom.length 0, 0, [(0, false)], 1⟩

/-! ### The dominance check -/

/-- Bytes of a vector of vectors of indices: 24 bytes a vector, 8 bytes an index. -/
def nestedBytes (alloc : Allocator) (lists : List (List Nat)) : Nat :=
  alloc.capacity lists.length lists.length * 24
    + (lists.map fun list => alloc.capacity 0 list.length * 8).sum

/-- Bytes of the scratch vectors that live before the dominators are computed. -/
def initialBytes (alloc : Allocator) (count total : Nat) (edges : List (List Nat))
    (search : DfsState) : Nat :=
  alloc.capacity count count * 16 + nestedBytes alloc edges
    + nestedBytes alloc ((List.range total).map (predecessors edges))
    + alloc.capacity total total + alloc.capacity total search.postorder.length * 8
    + alloc.capacity 1 search.peak * 16 + alloc.capacity total total * 8
    + alloc.capacity total total * 16

/-- Bytes of all scratch vectors. -/
def allocatedBytes (alloc : Allocator) (count total : Nat) (edges : List (List Nat))
    (search : DfsState) (idom : List (Option Nat)) (walk : TreeWalk) : Nat :=
  initialBytes alloc count total edges search
    + nestedBytes alloc ((List.range total).map (dominatorChildren idom))
    + alloc.capacity total total * 8 + alloc.capacity total total * 8
    + alloc.capacity 1 walk.peak * 16

/-- The gate of the prepare dominates the next instruction, if that is reachable at all. -/
def validateGateDominates (prototype : BytecodePrototype) (search : DfsState) (walk : TreeWalk)
    (pair : Nat × Nat) : Except BytecodeError Unit :=
  if search.visited[pair.2]?.getD false = false then .ok ()
  else do
    let gate ← some? (prototype.gate pair.1) (verify 0 "RVLU NumericForPrepare gate 缺失")
    reject (¬ (search.visited[gate]?.getD false = true
        ∧ walk.entry[gate]?.getD 0 ≤ walk.entry[pair.2]?.getD 0
        ∧ walk.exit[pair.2]?.getD 0 ≤ walk.exit[gate]?.getD 0))
      (verify 0 "RVLU NumericForNext 路徑未經對應 NumericForPrepare body entry")

/-- `validate_numeric_for_body_dominance`. -/
def validateNumericForBodyDominance (alloc : Allocator) (prototype : BytecodePrototype)
    (pairs : List (Nat × Nat)) : Except BytecodeError Unit :=
  if pairs = [] then .ok ()
  else do
    let count := prototype.instructions.length
    let edges := prototype.cfgEdges
    let total := edges.length
    let search := dfs edges
    let reverse := search.postorder.reverse
    reject (count * 768 < initialBytes alloc count total edges search)
      (limit 0 "RVLU NumericFor CFG 實際容量超過預掃描上界")
    let idom ← dominators edges reverse (count * 128 + 1)
      ((List.replicate total none).set 0 (some 0)) (count * 128)
    let walk := treeWalk idom
    reject (count * 768 < allocatedBytes alloc count total edges search idom walk)
      (limit 0 "RVLU NumericFor CFG 實際容量超過預掃描上界")
    each (validateGateDominates prototype search walk) pairs

/-! ### The pairing -/

/-- The prepares with their key registers, positions and exits. -/
def BytecodePrototype.prepares (prototype : BytecodePrototype) :
    List ((Register × Register × Register × Register) × Nat × InstructionOffset) :=
  prototype.instructions.zipIdx.filterMap fun entry =>
    match entry.1.instruction with
    | .numericForPrepare control limit step visible exit =>
      some ((control, limit, step, visible), entry.2, exit)
    | _ => none

/-- The pairs of the instructions from `index` on. -/
def numericForPairsFrom (prototype : BytecodePrototype) :
    Nat → List BytecodeInstruction → Except BytecodeError (List (Nat × Nat))
  | _, [] => .ok []
  | index, entry :: rest =>
    match entry.instruction with
    | .numericForNext control limit step visible target exit =>
      match prototype.prepares.filter
          fun prepare => decide (prepare.1 = (control, limit, step, visible)) with
      | [(_, prepareIndex, prepareExit)] => do
        reject (prepareExit ≠ exit ∨ prepareIndex + 1 ≠ target.toNat ∨ index < target.toNat)
          (verify 0 "RVLU NumericForPrepare/Next 的 body target 或 exit 不符")
        let pairs ← numericForPairsFrom prototype (index + 1) rest
        .ok ((prepareIndex, index) :: pairs)
      | _ => .error (verify 0 "RVLU NumericForNext 必須唯一配對 NumericForPrepare")
    | _ => numericForPairsFrom prototype (index + 1) rest

/-- `validate_numeric_for_pairs`.  A prepare entry takes 24 bytes, a pair 16. -/
def validateNumericForPairs (alloc : Allocator) (prototype : BytecodePrototype) :
    Except BytecodeError Unit := do
  let nextCount := prototype.instructions.countP fun entry => entry.instruction.isNext
  let prepareCapacity ← some? (alloc.reserveExact prototype.prepareIndices.length)
    (limit 0 "RVLU NumericFor Prepare 索引配置失敗")
  let pairCapacity ← some? (alloc.reserveExact nextCount)
    (limit 0 "RVLU NumericFor pair 索引配置失敗")
  let pairs ← numericForPairsFrom prototype 0 prototype.instructions
  reject (prototype.instructions.length * 256 < prepareCapacity * 24 + pairCapacity * 16)
    (limit 0 "RVLU NumericFor pair 容量超過預准入上界")
  validateNumericForBodyDominance alloc prototype pairs

end RivetLua.Bytecode
