import Mathlib.Data.List.Nodup
import RivetLua.Bytecode.OpenResults

namespace RivetLua.Bytecode

open RivetLua.Core Check

/-!
# Bytecode — close sequences in a run

The verifier finds the close sequences in one scan of the code, from the first instruction to the
last, and looks at jumps without them.

* `BytecodePrototype.closeSequences` — the sequences the scan recognises, with their places;
* `IsRun` — the program counters of a run; `ClosedWhole` — a sequence that is run as a whole;
* `closesWhole_iff` — a run closes as the paths say exactly where no branch enters a sequence
  behind its start;
* `declarationMarkers` — the declarations of to-be-closed bindings, one for each.
-/

/-! ### The scan -/

/-- The sequences that `validate_close_sequences` recognises from an instruction on: the place of
    the first instruction of each, and its path. -/
def closeSequencesFrom : Nat → Nat → List BytecodeInstruction → List (Nat × BytecodeClosePath)
  | _, _, [] => []
  | skip + 1, index, _ :: rest => closeSequencesFrom skip (index + 1) rest
  | 0, index, entry :: rest =>
    match entry.closeLink with
    | none => closeSequencesFrom 0 (index + 1) rest
    | some (_, _, path) =>
      (index, path) :: closeSequencesFrom (path.registers.length - 1) (index + 1) rest

/-- The close sequences of a prototype. -/
def BytecodePrototype.closeSequences (prototype : BytecodePrototype) :
    List (Nat × BytecodeClosePath) :=
  closeSequencesFrom 0 0 prototype.instructions

/-- The close link at a place of the code. -/
def linkAt (instructions : List BytecodeInstruction) (pc : Nat) :
    Option (Register × UInt16 × BytecodeClosePath) :=
  instructions[pc]?.bind BytecodeInstruction.closeLink

theorem validateCloseSequence_eq_ok {path : BytecodeClosePath} {rest : List BytecodeInstruction}
    (h : validateCloseSequence path rest = .ok ()) :
    path.registers ≠ []
      ∧ ∀ k register, path.registers[k]? = some register →
        linkAt rest k = some (register, 1, path) := by
  simp only [validateCloseSequence, then_eq_ok, reject_eq_ok, each_eq_ok] at h
  obtain ⟨hne, heach, -⟩ := h
  refine ⟨hne, fun k register hk => ?_⟩
  have hentry := heach (register, k) (List.mem_zipIdx_iff_getElem?.mpr hk)
  rw [Check.bind_eq_ok] at hentry
  obtain ⟨actual, hactual, hlink⟩ := hentry
  rw [some?_eq_ok] at hactual
  rw [reject_eq_ok, not_not] at hlink
  rw [linkAt, hactual]
  exact hlink

/-- What the scan has seen of the code from `index` on, with `skip` instructions of a sequence that
    has been recognised already. -/
structure Scanned (instructions : List BytecodeInstruction) (skip index : Nat)
    (sequences : List (Nat × BytecodeClosePath)) : Prop where
  /-- A sequence closes the registers of its path, one after the other. -/
  sound : ∀ start path, (start, path) ∈ sequences → index + skip ≤ start ∧ path.registers ≠ []
    ∧ ∀ k register, path.registers[k]? = some register →
      linkAt instructions (start + k) = some (register, 1, path)
  /-- Every close with a path belongs to a sequence. -/
  complete : ∀ pc, index + skip ≤ pc → linkAt instructions pc ≠ none →
    ∃ start path, (start, path) ∈ sequences ∧ start ≤ pc ∧ pc < start + path.registers.length
  /-- No two sequences overlap. -/
  apart : ∀ start path, (start, path) ∈ sequences → ∀ start' path', (start', path') ∈ sequences →
    (start = start' ∧ path = path') ∨ start + path.registers.length ≤ start'
      ∨ start' + path'.registers.length ≤ start

theorem validateCloseSequencesFrom_scanned {instructions : List BytecodeInstruction}
    {skip index : Nat} {rest : List BytecodeInstruction} (hrest : rest = instructions.drop index)
    (h : validateCloseSequencesFrom skip rest = .ok ()) :
    Scanned instructions skip index (closeSequencesFrom skip index rest) := by
  induction rest generalizing skip index with
  | nil =>
    refine ⟨fun _ _ h => absurd h List.not_mem_nil, fun pc hpc hlink => ?_,
      fun _ _ h => absurd h List.not_mem_nil⟩
    have hlength := List.drop_eq_nil_iff.mp hrest.symm
    rw [linkAt, List.getElem?_eq_none (by omega)] at hlink
    exact absurd rfl hlink
  | cons entry rest ih =>
    have hlater : rest = instructions.drop (index + 1) := by
      rw [← List.tail_drop, ← hrest]
      rfl
    have hhead : instructions[index]? = some entry := by
      rw [← List.head?_drop, ← hrest]
      rfl
    cases skip with
    | succ skip =>
      obtain ⟨hsound, hcomplete, hapart⟩ := ih hlater h
      refine ⟨fun start path hmem => ?_, fun pc hpc => hcomplete pc (by omega), hapart⟩
      obtain ⟨hle, hrest⟩ := hsound start path hmem
      exact ⟨by omega, hrest⟩
    | zero =>
      rw [validateCloseSequencesFrom] at h
      rw [closeSequencesFrom]
      cases hlink : entry.closeLink with
      | none =>
        rw [hlink] at h
        obtain ⟨hsound, hcomplete, hapart⟩ := ih hlater h
        refine ⟨fun start path hmem => ?_, fun pc hpc hsome => ?_, hapart⟩
        · obtain ⟨hle, hrest⟩ := hsound start path hmem
          exact ⟨by omega, hrest⟩
        · refine hcomplete pc ?_ hsome
          have hne : pc ≠ index := by
            rintro rfl
            rw [linkAt, hhead] at hsome
            exact hsome hlink
          omega
      | some link =>
        obtain ⟨base, count, path⟩ := link
        rw [hlink] at h
        simp only [then_eq_ok] at h
        obtain ⟨hsequence, hafter⟩ := h
        obtain ⟨hne, hlinks⟩ := validateCloseSequence_eq_ok hsequence
        have hpos := List.length_pos_iff.mpr hne
        obtain ⟨hsound, hcomplete, hapart⟩ := ih hlater hafter
        have hbehind : ∀ start' path', (start', path') ∈ closeSequencesFrom
            (path.registers.length - 1) (index + 1) rest → index + path.registers.length ≤ start' := by
          intro start' path' hmem
          have hle := (hsound start' path' hmem).1
          omega
        refine ⟨fun start path' hmem => ?_, fun pc hpc hsome => ?_, ?_⟩
        · rcases List.mem_cons.mp hmem with heq | hmem
          · cases heq
            refine ⟨by omega, hne, fun k register hk => ?_⟩
            have hk' := hlinks k register hk
            rwa [hrest, linkAt, List.getElem?_drop] at hk'
          · obtain ⟨hle, hrest⟩ := hsound start path' hmem
            exact ⟨by omega, hrest⟩
        · by_cases hin : pc < index + path.registers.length
          · exact ⟨index, path, List.mem_cons_self, by omega, hin⟩
          · obtain ⟨start, path', hmem, hbounds⟩ := hcomplete pc (by omega) hsome
            exact ⟨start, path', List.mem_cons_of_mem _ hmem, hbounds⟩
        · intro start path₁ hmem start' path₂ hmem'
          rcases List.mem_cons.mp hmem with heq | hmem <;>
            rcases List.mem_cons.mp hmem' with heq' | hmem'
          · cases heq
            cases heq'
            exact .inl ⟨rfl, rfl⟩
          · cases heq
            exact .inr (.inl (hbehind start' path₂ hmem'))
          · cases heq'
            exact .inr (.inr (hbehind start path₁ hmem))
          · exact hapart start path₁ hmem start' path₂ hmem'

/-- The sequences of a prototype whose metadata is accepted. -/
theorem validateMetadata_scanned {prototype : BytecodePrototype}
    (h : validateMetadata prototype = .ok ()) :
    Scanned prototype.instructions 0 0 prototype.closeSequences := by
  simp only [validateMetadata, then_eq_ok] at h
  exact validateCloseSequencesFrom_scanned rfl h.2.2.2.2

/-! ### Runs -/

/-- The program counters of a run from the entry on. -/
structure IsRun (prototype : BytecodePrototype) (pcs : List Nat) : Prop where
  entry : pcs[0]? = some 0
  follows : ∀ i pc next, pcs[i]? = some pc → pcs[i + 1]? = some next →
    ∃ entry, prototype.instructions[pc]? = some entry ∧ next ∈ entry.instruction.targets pc

/-- The places an instruction names as targets. -/
def Instruction.branches : Instruction → List Nat
  | .jump target | .jumpIfFalse _ target => [target.toNat]
  | .numericForPrepare _ _ _ _ exit => [exit.toNat]
  | .numericForNext _ _ _ _ target exit => [target.toNat, exit.toNat]
  | _ => []

theorem Instruction.targets_cases {instruction : Instruction} {pc next : Nat}
    (h : next ∈ instruction.targets pc) : next ∈ instruction.branches ∨ next = pc + 1 := by
  cases instruction <;> simp_all [targets, branches]

/-- A place of a close sequence behind its start. -/
def CloseMiddle (prototype : BytecodePrototype) (pc : Nat) : Prop :=
  ∃ start path, (start, path) ∈ prototype.closeSequences ∧ start < pc
    ∧ pc < start + path.registers.length

/-- At this place of the run a close sequence is run as a whole: it is entered at its start, and
    its instructions follow one another as far as the run goes. -/
def ClosedWhole (prototype : BytecodePrototype) (pcs : List Nat) (i : Nat) : Prop :=
  ∃ first start path, (start, path) ∈ prototype.closeSequences
    ∧ first ≤ i ∧ i < first + path.registers.length
    ∧ ∀ k < path.registers.length, ∀ pc, pcs[first + k]? = some pc → pc = start + k

/-- Every close with a path that is run belongs to a sequence that is run as a whole. -/
def ClosesWhole (prototype : BytecodePrototype) (pcs : List Nat) : Prop :=
  ∀ i pc, pcs[i]? = some pc → linkAt prototype.instructions pc ≠ none →
    ClosedWhole prototype pcs i

/-- No step of the run is a branch to a place of a close sequence behind its start. -/
def BranchesOutside (prototype : BytecodePrototype) (pcs : List Nat) : Prop :=
  ∀ i pc next entry, pcs[i]? = some pc → pcs[i + 1]? = some next →
    prototype.instructions[pc]? = some entry → next ∈ entry.instruction.branches →
    ¬ CloseMiddle prototype next

section Runs

variable {prototype : BytecodePrototype} {pcs : List Nat}

/-- An instruction with a close link does not branch. -/
theorem branches_of_closeLink {entry : BytecodeInstruction} (h : entry.closeLink ≠ none) :
    entry.instruction.branches = [] := by
  unfold BytecodeInstruction.closeLink at h
  split at h
  · rename_i hclose _
    rw [hclose]
    rfl
  · exact absurd rfl h

/-- The closes of a sequence have links. -/
theorem Scanned.link {instructions : List BytecodeInstruction}
    {sequences : List (Nat × BytecodeClosePath)} (h : Scanned instructions 0 0 sequences)
    {start k : Nat} {path : BytecodeClosePath} (hmem : (start, path) ∈ sequences)
    (hk : k < path.registers.length) :
    linkAt instructions (start + k) = some (path.registers[k], 1, path) :=
  (h.sound start path hmem).2.2 k _ (List.getElem?_eq_getElem hk)

/-- Behind a place of a sequence comes the next one. -/
theorem IsRun.forward (hrun : IsRun prototype pcs)
    (hscan : Scanned prototype.instructions 0 0 prototype.closeSequences) {start first : Nat}
    {path : BytecodeClosePath} (hmem : (start, path) ∈ prototype.closeSequences)
    (hfirst : pcs[first]? = some start) :
    ∀ k < path.registers.length, ∀ pc, pcs[first + k]? = some pc → pc = start + k := by
  intro k
  induction k with
  | zero =>
    intro _ pc hpc
    rw [Nat.add_zero, hfirst] at hpc
    exact (Option.some.inj hpc).symm
  | succ k ih =>
    intro hk pc hpc
    have hlt : first + k < pcs.length := by
      have hlast := (List.getElem?_eq_some_iff.mp hpc).1
      omega
    have hbefore := List.getElem?_eq_getElem hlt
    have hpc' := ih (by omega) _ hbefore
    obtain ⟨entry, hentry, htarget⟩ := hrun.follows _ _ _ hbefore hpc
    have hlink := hscan.link hmem (show k < path.registers.length by omega)
    rw [linkAt, ← hpc', hentry] at hlink
    rcases Instruction.targets_cases htarget with hbranch | hnext
    · rw [branches_of_closeLink (by rw [show entry.closeLink = _ from hlink]; simp)] at hbranch
      cases hbranch
    · rw [hnext, hpc']
      rfl

/-- Before a place of a sequence behind its start comes the place before it, unless a branch leads
    there. -/
theorem IsRun.backward (hrun : IsRun prototype pcs) (houtside : BranchesOutside prototype pcs)
    {start i : Nat} {path : BytecodeClosePath}
    (hmem : (start, path) ∈ prototype.closeSequences) :
    ∀ k < path.registers.length, pcs[i]? = some (start + k) →
      ∃ first, i = first + k ∧ pcs[first]? = some start := by
  intro k
  induction k generalizing i with
  | zero => exact fun _ h => ⟨i, rfl, h⟩
  | succ k ih =>
    intro hk hi
    cases i with
    | zero =>
      rw [hrun.entry] at hi
      cases hi
    | succ i =>
      have hlt : i < pcs.length := by
        have hlast := (List.getElem?_eq_some_iff.mp hi).1
        omega
      have hbefore := List.getElem?_eq_getElem hlt
      obtain ⟨entry, hentry, htarget⟩ := hrun.follows _ _ _ hbefore hi
      have hmiddle : CloseMiddle prototype (start + (k + 1)) :=
        ⟨start, path, hmem, by omega, by omega⟩
      rcases Instruction.targets_cases htarget with hbranch | hnext
      · exact absurd hmiddle (houtside i _ _ entry hbefore hi hentry hbranch)
      · have hpc : pcs[i] = start + k := by omega
        rw [hpc] at hbefore
        obtain ⟨first, hfirst, hstart⟩ := ih (by omega) hbefore
        exact ⟨first, by omega, hstart⟩

/-- **A run closes sequences as a whole** exactly where no branch of it leads into one. -/
theorem closesWhole_iff (hscan : Scanned prototype.instructions 0 0 prototype.closeSequences)
    (hrun : IsRun prototype pcs) :
    ClosesWhole prototype pcs ↔ BranchesOutside prototype pcs := by
  constructor
  · intro hwhole i pc next entry hpc hnext hentry hbranch hmiddle
    obtain ⟨start, path, hmem, hlower, hupper⟩ := hmiddle
    have hlink := hscan.link hmem (show next - start < path.registers.length by omega)
    rw [Nat.add_sub_cancel' (le_of_lt hlower)] at hlink
    obtain ⟨first, start', path', hmem', hfirst, hlast, hall⟩ :=
      hwhole (i + 1) next hnext (by rw [hlink]; simp)
    have hplace := hall (i + 1 - first) (by omega) next
      (by rw [Nat.add_sub_cancel' hfirst]; exact hnext)
    -- the sequence entered is this one, so the step before it was one of its closes
    obtain ⟨rfl, rfl⟩ : start = start' ∧ path = path' := by
      rcases hscan.apart start path hmem start' path' hmem' with hsame | hbefore | hbehind
      · exact hsame
      · omega
      · omega
    have hprevious := hall (i - first) (by omega) pc
      (by rw [Nat.add_sub_cancel' (by omega)]; exact hpc)
    have hlink' := hscan.link hmem (show i - first < path.registers.length by omega)
    rw [← hprevious, linkAt, hentry] at hlink'
    rw [branches_of_closeLink (by rw [show entry.closeLink = _ from hlink']; simp)] at hbranch
    cases hbranch
  · intro houtside i pc hpc hlink
    obtain ⟨start, path, hmem, hlower, hupper⟩ := hscan.complete pc (Nat.zero_le _) hlink
    obtain ⟨first, hi, hfirst⟩ := hrun.backward houtside hmem (pc - start) (by omega)
      (by rw [Nat.add_sub_cancel' hlower]; exact hpc)
    exact ⟨first, start, path, hmem, by omega, by omega, hrun.forward hscan hmem hfirst⟩

end Runs

/-! ### Declarations -/

/-- The binding that a marker declares. -/
def BytecodeInstruction.declaredBinding (entry : BytecodeInstruction) : Option BytecodeBindingId :=
  entry.closeDeclaration.bind fun declaration => declaration.2.bindings.head?

/-- The bindings that are declared in the code, once for each marker. -/
def BytecodePrototype.declarationMarkers (prototype : BytecodePrototype) :
    List BytecodeBindingId :=
  prototype.instructions.filterMap BytecodeInstruction.declaredBinding

/-- A close path of a prototype, in its table or at one of its instructions. -/
def BytecodePrototype.HasClosePath (prototype : BytecodePrototype) (path : BytecodeClosePath) :
    Prop :=
  path ∈ prototype.closePaths ∨ ∃ entry ∈ prototype.instructions, entry.closePath = some path

theorem collectCloseDeclarations_ok {prototype : BytecodePrototype}
    {declared result : List BytecodeBindingId} {instructions : List BytecodeInstruction}
    (h : collectCloseDeclarations prototype declared instructions = .ok result)
    (hnodup : declared.Nodup) :
    result = declared ++ instructions.filterMap BytecodeInstruction.declaredBinding
      ∧ result.Nodup := by
  induction instructions generalizing declared with
  | nil =>
    cases h
    exact ⟨(List.append_nil _).symm, hnodup⟩
  | cons entry rest ih =>
    rw [collectCloseDeclarations] at h
    cases hdeclaration : entry.closeDeclaration with
    | none =>
      rw [hdeclaration] at h
      rw [List.filterMap_cons_none (by rw [BytecodeInstruction.declaredBinding, hdeclaration]; rfl)]
      exact ih h hnodup
    | some declaration =>
      obtain ⟨dest, path⟩ := declaration
      rw [hdeclaration] at h
      cases hbindings : path.bindings with
      | nil =>
        simp only [hbindings] at h
        rw [List.filterMap_cons_none
          (by rw [BytecodeInstruction.declaredBinding, hdeclaration]; simp [hbindings])]
        exact ih h hnodup
      | cons binding others =>
        simp only [hbindings, then_eq_ok, reject_eq_ok] at h
        obtain ⟨hfresh, -, hrest⟩ := h
        have hdeclared : entry.declaredBinding = some binding := by
          rw [BytecodeInstruction.declaredBinding, hdeclaration]
          simp [hbindings]
        have hnodup' : (declared ++ [binding]).Nodup :=
          List.nodup_append.mpr ⟨hnodup, List.nodup_singleton _, by
            rintro a ha _ hb rfl
            rw [List.mem_singleton.mp hb] at ha
            exact hfresh ha⟩
        obtain ⟨hresult, hresult'⟩ := ih hrest hnodup'
        rw [List.filterMap_cons_some hdeclared]
        refine ⟨?_, hresult'⟩
        rw [hresult, List.append_assoc]
        rfl

/-- **Every binding of a close path is declared once.** -/
theorem declarationMarkers_count {alloc : Allocator} {prototype : BytecodePrototype}
    {module : BytecodeModule} {limits : VerifyLimits}
    (h : PrototypeVerified alloc prototype module limits) {path : BytecodeClosePath}
    (hpath : prototype.HasClosePath path) :
    ∀ binding ∈ path.bindings, prototype.declarationMarkers.count binding = 1 := by
  have hmarkers := h.markers
  rw [validateCloseDeclarationMarkers, Check.bind_eq_ok] at hmarkers
  obtain ⟨declared, hcollect, heach⟩ := hmarkers
  simp only [each_eq_ok, reject_eq_ok, not_not] at heach
  obtain ⟨hdeclared, hnodup⟩ := collectCloseDeclarations_ok hcollect List.nodup_nil
  rw [List.nil_append] at hdeclared
  have hmarkers : declared = prototype.declarationMarkers := hdeclared
  rw [hmarkers] at heach hnodup
  intro binding hbinding
  refine List.count_eq_one_of_mem hnodup ?_
  rcases hpath with htable | ⟨entry, hentry, hclosePath⟩
  · exact heach path htable binding hbinding
  obtain ⟨index, hindex⟩ := List.mem_iff_getElem?.mp hentry
  have hshape := (validateInstructions_eq_ok.mp h.instructions index entry hindex).2
  rw [validateInstructionShape, then_eq_ok] at hshape
  have hlink := hshape.2
  unfold validateCloseLink at hlink
  rw [hclosePath] at hlink
  cases hinstruction : entry.instruction with
  | move dest src =>
    simp only [hinstruction, then_eq_ok, reject_eq_ok, not_or, not_not] at hlink
    obtain ⟨-, -, -, hlength, -⟩ := hlink
    -- the path of a marker has the binding that it declares, and no other
    obtain ⟨declaredHere, hsingle⟩ := List.length_eq_one_iff.mp hlength
    rw [hsingle, List.mem_singleton] at hbinding
    refine List.mem_filterMap.mpr ⟨entry, hentry, ?_⟩
    unfold BytecodeInstruction.declaredBinding BytecodeInstruction.closeDeclaration
    rw [hinstruction, hclosePath, hbinding]
    simp [hsingle]
  | close base count =>
    simp only [hinstruction] at hlink
    split at hlink
    · simp only [then_eq_ok, reject_eq_ok, not_or, not_not] at hlink
      exact heach path hlink.2.2.1 binding hbinding
    · cases hlink
  | _ =>
    simp only [hinstruction] at hlink
    cases hlink

/-! ### Verified prototypes -/

/-- **Close sequences in a verified prototype.**  A run closes every sequence as a whole if and
    only if none of its steps is a branch to a place of a sequence behind its start; and every
    binding of a close path has one declaration marker. -/
theorem verifyModule_closeSequences {alloc : Allocator} {module : BytecodeModule}
    {expectedProfile : LuaProfile} {limits : VerifyLimits} {verified : VerifiedModule}
    (h : verifyModule alloc module expectedProfile limits = .ok verified)
    {prototype : BytecodePrototype} (hprototype : prototype ∈ module.prototypes) :
    (∀ pcs, IsRun prototype pcs → (ClosesWhole prototype pcs ↔ BranchesOutside prototype pcs))
      ∧ (∀ start path, (start, path) ∈ prototype.closeSequences → path.registers ≠ []
        ∧ ∀ k register, path.registers[k]? = some register →
          linkAt prototype.instructions (start + k) = some (register, 1, path))
      ∧ ∀ path, prototype.HasClosePath path →
        ∀ binding ∈ path.bindings, prototype.declarationMarkers.count binding = 1 := by
  obtain ⟨hcheck, -⟩ := verifyModule_eq_ok.mp h
  simp only [checkModule, then_eq_ok] at hcheck
  obtain ⟨-, -, -, -, -, -, hprototypes, -⟩ := hcheck
  have hverified := verifyPrototypes_verified hprototypes prototype hprototype
  have hscan := validateMetadata_scanned hverified.metadata
  refine ⟨fun pcs hrun => closesWhole_iff hscan hrun, fun start path hmem => ?_,
    fun path hpath => declarationMarkers_count hverified hpath⟩
  exact (hscan.sound start path hmem).2

/-- The path that closes the variables in the registers 2 and 1. -/
def closeTwo : BytecodeClosePath := ⟨.normal, ⟨0, 0⟩, 0, none, [⟨0, 2⟩, ⟨0, 1⟩], [2, 1]⟩

/-- The path of a marker. -/
def markerPath (ordinal : UInt32) (register : Register) : BytecodeClosePath :=
  ⟨.normal, ⟨0, 0⟩, 0, some 0, [⟨0, ordinal⟩], [register]⟩

/-- Two to-be-closed variables, and in front of their close sequence a conditional jump to the
    second close. -/
def jumpIntoClosePrototype : BytecodePrototype :=
  { returnPrototype 0 none .rootExternal [] with
    registerCount := 4
    bindingRegisters := [(⟨0, 0⟩, 0), (⟨0, 1⟩, 1), (⟨0, 2⟩, 2)]
    closePaths := [closeTwo]
    instructions := [⟨.move 1 3, ⟨0, 0⟩, some (markerPath 1 1)⟩,
      ⟨.move 2 3, ⟨0, 0⟩, some (markerPath 2 2)⟩, ⟨.jumpIfFalse 3 4, ⟨0, 0⟩, none⟩,
      ⟨.close 2 1, ⟨0, 0⟩, some closeTwo⟩, ⟨.close 1 1, ⟨0, 0⟩, some closeTwo⟩,
      ⟨.ret 0 (.fixed 0), ⟨0, 0⟩, none⟩] }

/-- The verifier accepts the prototype. -/
theorem verifyModule_jumpIntoClose :
    verifyModule .exact (returnModule [jumpIntoClosePrototype]) .lua54 .default
      = .ok ⟨returnModule [jumpIntoClosePrototype], 28⟩ := by
  decide +kernel

/-- One sequence is recognised, and both variables have a marker. -/
theorem verifyModule_closeSequences_two :
    jumpIntoClosePrototype.closeSequences = [(3, closeTwo)]
      ∧ (∀ pcs, IsRun jumpIntoClosePrototype pcs →
        (ClosesWhole jumpIntoClosePrototype pcs ↔ BranchesOutside jumpIntoClosePrototype pcs))
      ∧ ∀ path, jumpIntoClosePrototype.HasClosePath path →
        ∀ binding ∈ path.bindings,
          jumpIntoClosePrototype.declarationMarkers.count binding = 1 := by
  have hall := verifyModule_closeSequences verifyModule_jumpIntoClose (List.mem_singleton.mpr rfl)
  exact ⟨by decide, hall.1, hall.2.2⟩

/-- With a false condition the jump is taken: the variable in register 1 is closed, and the one in
    register 2 is not. -/
theorem jumpIntoClose_not_whole :
    verifyModule .exact (returnModule [jumpIntoClosePrototype]) .lua54 .default
        = .ok ⟨returnModule [jumpIntoClosePrototype], 28⟩
      ∧ IsRun jumpIntoClosePrototype [0, 1, 2, 4]
      ∧ linkAt jumpIntoClosePrototype.instructions 4 = some (1, 1, closeTwo)
      ∧ ¬ ClosesWhole jumpIntoClosePrototype [0, 1, 2, 4] := by
  refine ⟨verifyModule_jumpIntoClose, ⟨rfl, ?_⟩, by decide, fun hwhole => ?_⟩
  · rintro (_ | _ | _ | i) pc next hpc hnext
    · cases hpc
      cases hnext
      exact ⟨_, rfl, List.mem_singleton.mpr rfl⟩
    · cases hpc
      cases hnext
      exact ⟨_, rfl, List.mem_singleton.mpr rfl⟩
    · cases hpc
      cases hnext
      exact ⟨_, rfl, List.mem_cons_self⟩
    · cases hnext
  · obtain ⟨first, start, path, hmem, hfirst, hlast, hall⟩ := hwhole 3 4 rfl (by decide)
    have hsequences : jumpIntoClosePrototype.closeSequences = [(3, closeTwo)] := by decide
    rw [hsequences, List.mem_singleton, Prod.mk.injEq] at hmem
    obtain ⟨rfl, rfl⟩ := hmem
    have hlength : closeTwo.registers.length = 2 := rfl
    rw [hlength] at hlast
    obtain rfl | rfl : first = 2 ∨ first = 3 := by omega
    · exact absurd (hall 0 (by decide) 2 rfl) (by decide)
    · exact absurd (hall 0 (by decide) 4 rfl) (by decide)

end RivetLua.Bytecode
