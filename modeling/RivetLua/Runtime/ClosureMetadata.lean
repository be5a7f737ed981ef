import Mathlib.Data.List.Perm.Subperm
import RivetLua.Bytecode.OpenResults
import RivetLua.Bytecode.ReadBack
import RivetLua.Runtime.CallFrame

namespace RivetLua.Runtime

open RivetLua.Core RivetLua.Bytecode StateProg Check

/-!
# Runtime — the closures of a verified module

The verifier relates prototypes to each other where an instruction or the environment does: the
child of a closure instruction is a child of the prototype, a parent is there.  Where a captured
variable comes from it leaves to the VM, which looks for the source when it makes the closure and
stops when there is none.

* `ClosureMetadata` — what holds between the prototypes of a verified module;
* `captureSource`, `Present` — the source of a captured variable in a running frame;
* `verifyModule_closureMetadata` — both.
-/

/-! ### Sources -/

/-- The source of a captured variable in a frame that runs `parent`, for a closure that holds
    `owned`. -/
def captureSource (parent : BytecodePrototype) (owned : List ObjectRef) :
    BytecodeUpvalueSource → CaptureSource
  | .parentLocal binding => .parentLocal ((parent.bindingRegister binding).map UInt16.toNat)
  | .parentUpvalue upvalue =>
    .parentUpvalue (some? owned[upvalue.toNat]? .registerOutOfBounds)

/-- The parent has the source: a register for the binding, or the upvalue. -/
def Present (parent : BytecodePrototype) (count : Nat) : BytecodeUpvalueSource → Prop
  | .parentLocal binding => (parent.bindingRegister binding).isSome
  | .parentUpvalue upvalue => upvalue.toNat < count

/-- A source the VM has found: a register of the parent, or an upvalue of the closure. -/
def Found (parent : BytecodePrototype) (owned : List ObjectRef) : CaptureSource → Prop
  | .parentLocal register => ∃ r, register = some r ∧ r < parent.registerCount.toNat
  | .parentUpvalue found => ∃ object ∈ owned, found = .ok object

/-- The sources of a child, in the order of its upvalues. -/
def captureSources (parent child : BytecodePrototype) (owned : List ObjectRef)
    (site : BytecodeUpvalue → AllocationSite) : List (AllocationSite × CaptureSource) :=
  child.upvalues.map fun upvalue => (site upvalue, captureSource parent owned upvalue.source)

/-- A source that is not there stops the capture before it has done anything. -/
theorem capture_of_missing {parent : BytecodePrototype} {owned : List ObjectRef}
    {source : BytecodeUpvalueSource} (h : ¬ Present parent owned.length source)
    (site : AllocationSite) (s : Execution) :
    capture site (captureSource parent owned source) s = (.error .registerOutOfBounds, s) := by
  cases source with
  | parentLocal binding =>
    have hnone : parent.bindingRegister binding = none := by simpa [Present] using h
    rw [captureSource, hnone]
    rfl
  | parentUpvalue upvalue =>
    have hnone : owned[upvalue.toNat]? = none := List.getElem?_eq_none (Nat.le_of_not_lt h)
    rw [captureSource, hnone]
    rfl

/-- Captures with a source that always stops do not end. -/
theorem captureAll_of_missing {sources : List (AllocationSite × CaptureSource)}
    (h : ∃ entry ∈ sources, ∀ s, ∃ e, capture entry.1 entry.2 s = (.error e, s)) (s : Execution) :
    ∀ objects s', captureAll sources s ≠ (.ok objects, s') := by
  induction sources generalizing s with
  | nil =>
    obtain ⟨entry, hentry, -⟩ := h
    cases hentry
  | cons first rest ih =>
    intro objects s' hrun
    obtain ⟨object, s₁, hfirst, hrun⟩ := Prog.bind_eq_ok hrun
    obtain ⟨others, s₂, hrest, -⟩ := Prog.bind_eq_ok hrun
    obtain ⟨entry, hentry, hstops⟩ := h
    rcases List.mem_cons.mp hentry with rfl | hmem
    · obtain ⟨e, hstop⟩ := hstops s
      rw [hstop] at hfirst
      cases hfirst
    · exact ih ⟨entry, hmem, hstops⟩ s₁ others s₂ hrest

/-- **The guard of a closure instruction.**  With a source missing no closure is made. -/
theorem captureUpvalues_of_missing {parent child : BytecodePrototype} {owned : List ObjectRef}
    (site : BytecodeUpvalue → AllocationSite)
    (h : ∃ upvalue ∈ child.upvalues, ¬ Present parent owned.length upvalue.source)
    (s : Execution) :
    ∀ captures s', captureUpvalues (captureSources parent child owned site) s
      ≠ (.ok captures, s') := by
  intro captures s' hrun
  unfold captureUpvalues at hrun
  obtain ⟨_, s₁, -, hrun⟩ := Prog.bind_eq_ok hrun
  obtain ⟨_, s₂, -, hrun⟩ := Prog.bind_eq_ok hrun
  obtain ⟨objects, s₃, hall, -⟩ := Prog.bind_eq_ok hrun
  refine captureAll_of_missing ?_ s₂ objects s₃ (Prog.onError_eq_ok hall)
  obtain ⟨upvalue, hupvalue, hmissing⟩ := h
  exact ⟨_, List.mem_map_of_mem hupvalue, fun s =>
    ⟨.registerOutOfBounds, capture_of_missing hmissing (site upvalue) s⟩⟩

/-! ### Metadata -/

/-- The upvalue an environment comes from. -/
def environmentUpvalue : EnvironmentSource → Option UpvalueId
  | .parentLocal upvalue | .parentUpvalue upvalue => some upvalue
  | _ => none

/-- The environment and its upvalue capture the same kind of variable. -/
def SameKind : EnvironmentSource → BytecodeUpvalueSource → Prop
  | .parentLocal _, .parentLocal _ | .parentUpvalue _, .parentUpvalue _ => True
  | _, _ => False

/-- What holds between the prototypes of a verified module. -/
structure ClosureMetadata (module : BytecodeModule) : Prop where
  distinct : (module.prototypes.map BytecodePrototype.id).Nodup
  parent : ∀ prototype ∈ module.prototypes, ∀ parent, prototype.parent = some parent →
    ∃ candidate ∈ module.prototypes, candidate.id = parent
  /-- The identifiers of the upvalues are the positions, in some order. -/
  upvalues : ∀ prototype ∈ module.prototypes,
    (prototype.upvalues.map fun upvalue => upvalue.id.toNat).Perm
      (List.range prototype.upvalues.length)
  /-- The upvalue at the position of the environment; its identifier may be another one. -/
  environment : ∀ prototype ∈ module.prototypes, ∀ id,
    environmentUpvalue prototype.frame.environmentSource = some id →
    ∃ upvalue, prototype.upvalues[id.toNat]? = some upvalue
      ∧ SameKind prototype.frame.environmentSource upvalue.source
      ∧ (prototype.upvalues.find? (fun candidate => decide (candidate.id = id)) = some upvalue
          ↔ upvalue.id = id)
  closure : ∀ prototype ∈ module.prototypes, ∀ entry ∈ prototype.instructions, ∀ dest proto,
    entry.instruction = .closure dest proto →
    ∃ child ∈ module.prototypes, child.id = proto ∧ child.parent = some prototype.id

theorem validateUpvalues_nodup {length : Nat} {seen : List UpvalueId}
    {upvalues : List BytecodeUpvalue} (h : validateUpvalues length seen upvalues = .ok ()) :
    (upvalues.map BytecodeUpvalue.id).Nodup ∧ ∀ upvalue ∈ upvalues, upvalue.id ∉ seen := by
  induction upvalues generalizing seen with
  | nil => simp
  | cons first rest ih =>
    rw [validateUpvalues, then_eq_ok, reject_eq_ok] at h
    obtain ⟨hfirst, hrest⟩ := h
    obtain ⟨hnodup, hseen⟩ := ih hrest
    refine ⟨?_, ?_⟩
    · rw [List.map_cons, List.nodup_cons]
      refine ⟨fun hmem => ?_, hnodup⟩
      obtain ⟨upvalue, hupvalue, heq⟩ := List.mem_map.mp hmem
      exact hseen upvalue hupvalue (by rw [heq]; simp)
    · rw [List.forall_mem_cons]
      refine ⟨fun hmem => hfirst (.inr hmem), fun upvalue hupvalue hmem => ?_⟩
      exact hseen upvalue hupvalue (List.mem_append_left _ hmem)

/-- The identifiers are as many as the positions, and none is out of range or there twice. -/
theorem upvalueIds_perm {prototype : BytecodePrototype}
    (h : validateUpvalues prototype.upvalues.length [] prototype.upvalues = .ok ()) :
    (prototype.upvalues.map fun upvalue => upvalue.id.toNat).Perm
      (List.range prototype.upvalues.length) := by
  have hnodup : (prototype.upvalues.map fun upvalue => upvalue.id.toNat).Nodup := by
    have hids := (validateUpvalues_nodup h).1.map (f := UInt16.toNat)
      fun _ _ heq => UInt16.toNat_inj.mp heq
    rwa [List.map_map] at hids
  have hsubset : prototype.upvalues.map (fun upvalue => upvalue.id.toNat)
      ⊆ List.range prototype.upvalues.length := by
    intro n hn
    obtain ⟨upvalue, hupvalue, rfl⟩ := List.mem_map.mp hn
    exact List.mem_range.mpr (validateUpvalues_lt h upvalue hupvalue)
  refine (List.subperm_of_subset hnodup hsubset).perm_of_length_le ?_
  rw [List.length_range, List.length_map]

/-- No other upvalue has the identifier of this one. -/
theorem find?_upvalue {upvalues : List BytecodeUpvalue}
    (hnodup : (upvalues.map BytecodeUpvalue.id).Nodup) {upvalue : BytecodeUpvalue}
    (hmem : upvalue ∈ upvalues) (id : UpvalueId) :
    upvalues.find? (fun candidate => decide (candidate.id = id)) = some upvalue
      ↔ upvalue.id = id := by
  constructor
  · intro hfind
    simpa using List.find?_some hfind
  · rintro rfl
    induction upvalues with
    | nil => cases hmem
    | cons first rest ih =>
      rw [List.map_cons, List.nodup_cons] at hnodup
      rcases List.mem_cons.mp hmem with rfl | hrest
      · rw [List.find?_cons_of_pos (by simp)]
      · rw [List.find?_cons_of_neg, ih hnodup.2 hrest]
        have hne : first.id ≠ upvalue.id := fun heq =>
          hnodup.1 (heq ▸ List.mem_map_of_mem hrest)
        simpa using hne

theorem validateEnvironmentSource_upvalue {prototype : BytecodePrototype} {module : BytecodeModule}
    (h : validateEnvironmentSource prototype module = .ok ()) {id : UpvalueId}
    (hid : environmentUpvalue prototype.frame.environmentSource = some id) :
    ∃ upvalue, prototype.upvalues[id.toNat]? = some upvalue
      ∧ SameKind prototype.frame.environmentSource upvalue.source := by
  unfold validateEnvironmentSource at h
  cases hsource : prototype.frame.environmentSource with
  | rootExternal =>
    rw [hsource] at hid
    cases hid
  | parentFrame parent register =>
    rw [hsource] at hid
    cases hid
  | parentLocal upvalue =>
    rw [hsource] at hid h
    cases hid
    obtain ⟨found, hfound, h⟩ := bind_eq_ok.mp h
    refine ⟨found, some?_eq_ok.mp hfound, ?_⟩
    cases hkind : found.source with
    | parentLocal _ => trivial
    | parentUpvalue _ =>
      rw [hkind] at h
      cases h
  | parentUpvalue upvalue =>
    rw [hsource] at hid h
    cases hid
    obtain ⟨found, hfound, h⟩ := bind_eq_ok.mp h
    refine ⟨found, some?_eq_ok.mp hfound, ?_⟩
    cases hkind : found.source with
    | parentUpvalue _ => trivial
    | parentLocal _ =>
      rw [hkind] at h
      cases h

/-- The metadata of a module whose prototypes have passed. -/
theorem closureMetadata_of_verified {alloc : Allocator} {module : BytecodeModule}
    {limits : VerifyLimits}
    (hdistinct : (module.prototypes.map BytecodePrototype.id).Nodup)
    (hverified : ∀ prototype ∈ module.prototypes,
      PrototypeVerified alloc prototype module limits) : ClosureMetadata module where
  distinct := hdistinct
  parent := by
    intro prototype hprototype parent hparent
    have hno := (hverified prototype hprototype).parent
    by_contra hmissing
    exact hno ⟨parent, hparent, hmissing⟩
  upvalues := by
    intro prototype hprototype
    have hmetadata := (hverified prototype hprototype).metadata
    simp only [validateMetadata, then_eq_ok] at hmetadata
    exact upvalueIds_perm hmetadata.2.2.1
  environment := by
    intro prototype hprototype id hid
    obtain ⟨upvalue, hget, hkind⟩ := validateEnvironmentSource_upvalue
      (hverified prototype hprototype).environmentSource hid
    have hmetadata := (hverified prototype hprototype).metadata
    simp only [validateMetadata, then_eq_ok] at hmetadata
    exact ⟨upvalue, hget, hkind, find?_upvalue (validateUpvalues_nodup hmetadata.2.2.1).1
      (List.mem_of_getElem? hget) id⟩
  closure := by
    intro prototype hprototype entry hentry dest proto hclosure
    obtain ⟨index, hindex⟩ := List.mem_iff_getElem?.mp hentry
    have hshape := (validateInstructions_eq_ok.mp
      (hverified prototype hprototype).instructions index entry hindex).2
    rw [validateInstructionShape, then_eq_ok] at hshape
    have hoperands := validateOperands_inRange (hverified prototype hprototype).metadata hshape.1
    exact hoperands.child proto (by rw [hclosure]; rfl)

/-! ### Present sources are found -/

theorem validateBindingRegisters_lt {registerCount : UInt16} {seen : List BytecodeBindingId}
    {entries : List (BytecodeBindingId × Register)}
    (h : validateBindingRegisters registerCount seen entries = .ok ()) :
    ∀ entry ∈ entries, entry.2 < registerCount := by
  induction entries generalizing seen with
  | nil => simp
  | cons first rest ih =>
    rw [validateBindingRegisters, then_eq_ok, reject_eq_ok] at h
    rw [List.forall_mem_cons]
    exact ⟨UInt16.not_le.mp fun hle => h.1 (.inr hle), ih h.2⟩

theorem found_of_present {parent : BytecodePrototype} (hmetadata : validateMetadata parent = .ok ())
    {owned : List ObjectRef} {source : BytecodeUpvalueSource}
    (h : Present parent owned.length source) : Found parent owned (captureSource parent owned source) := by
  cases source with
  | parentLocal binding =>
    obtain ⟨register, hregister⟩ := Option.isSome_iff_exists.mp h
    simp only [validateMetadata, then_eq_ok] at hmetadata
    refine ⟨register.toNat, by rw [hregister]; rfl, ?_⟩
    unfold BytecodePrototype.bindingRegister at hregister
    obtain ⟨entry, hentry, rfl⟩ := Option.map_eq_some_iff.mp hregister
    exact UInt16.lt_iff_toNat_lt.mp
      (validateBindingRegisters_lt hmetadata.1 entry (List.mem_of_find?_eq_some hentry))
  | parentUpvalue upvalue =>
    have hlt : upvalue.toNat < owned.length := h
    refine ⟨owned[upvalue.toNat], List.getElem_mem hlt, ?_⟩
    rw [List.getElem?_eq_getElem hlt]
    rfl

/-- **Closures of a verified module.**  The closure instructions of a verified module name children
    of their prototype, parents exist, upvalue identifiers are positions and the environment has an
    upvalue of its kind.  Where all sources of a child are there the VM finds them; where one is
    missing it makes no closure. -/
theorem verifyModule_closureMetadata {alloc : Allocator} {module : BytecodeModule}
    {expectedProfile : LuaProfile} {limits : VerifyLimits} {verified : VerifiedModule}
    (h : verifyModule alloc module expectedProfile limits = .ok verified) :
    ClosureMetadata module
      ∧ ∀ parent ∈ module.prototypes, ∀ child ∈ module.prototypes, ∀ owned : List ObjectRef,
        ((∀ upvalue ∈ child.upvalues, Present parent owned.length upvalue.source) →
          ∀ upvalue ∈ child.upvalues, Found parent owned (captureSource parent owned upvalue.source))
        ∧ ∀ upvalue ∈ child.upvalues, ¬ Present parent owned.length upvalue.source →
          (∀ site s, capture site (captureSource parent owned upvalue.source) s
              = (.error .registerOutOfBounds, s))
            ∧ ∀ site s captures s', captureUpvalues (captureSources parent child owned site) s
              ≠ (.ok captures, s') := by
  obtain ⟨hcheck, -⟩ := verifyModule_eq_ok.mp h
  simp only [checkModule, then_eq_ok] at hcheck
  obtain ⟨-, -, -, -, -, -, hprototypes, -⟩ := hcheck
  have hverified := verifyPrototypes_verified hprototypes
  refine ⟨closureMetadata_of_verified (verifyPrototypes_distinct hprototypes).1 hverified, ?_⟩
  intro parent hparent child hchild owned
  refine ⟨?_, ?_⟩
  · intro hpresent upvalue hupvalue
    exact found_of_present (hverified parent hparent).metadata (hpresent upvalue hupvalue)
  · intro upvalue hupvalue hmissing
    refine ⟨fun site s => capture_of_missing hmissing site s, fun site s => ?_⟩
    exact captureUpvalues_of_missing site ⟨upvalue, hupvalue, hmissing⟩ s

/-- A root that makes a closure of a child whose only upvalue captures a binding the root has not. -/
def danglingModule : BytecodeModule :=
  returnModule [
    { returnPrototype 0 none .rootExternal [] with
      registerCount := 2
      instructions := [⟨.closure 1 1, ⟨0, 0⟩, none⟩, ⟨.ret 0 (.fixed 0), ⟨0, 0⟩, none⟩] },
    { returnPrototype 1 (some 0) (.parentFrame 0 0) [] with
      upvalues := [⟨0, .parentLocal ⟨9, 9⟩⟩] }]

/-- A prototype that is its own parent. -/
def selfParentModule : BytecodeModule :=
  returnModule [returnPrototype 0 none .rootExternal [],
    returnPrototype 1 (some 1) (.parentFrame 1 0) []]

/-- A verified module with a closure that captures nothing. -/
theorem verifyModule_closureMetadata_selfParent : ClosureMetadata selfParentModule :=
  have h : verifyModule .exact selfParentModule .lua54 .default = .ok ⟨selfParentModule, 7⟩ := by
    decide +kernel
  (verifyModule_closureMetadata h).1

/-- Both are verified: a source may be missing, and parent links may go round in a circle. -/
theorem verifyModule_accepts_dangling :
    (∃ verified, verifyModule .exact danglingModule .lua54 .default = .ok verified)
      ∧ (∃ parent child upvalue, danglingModule.prototypes = [parent, child]
        ∧ child.parent = some parent.id ∧ child.upvalues = [upvalue]
        ∧ ∀ count, ¬ Present parent count upvalue.source)
      ∧ (∃ verified, verifyModule .exact selfParentModule .lua54 .default = .ok verified)
      ∧ (∃ root prototype, selfParentModule.prototypes = [root, prototype]
        ∧ prototype.parent = some prototype.id) := by
  refine ⟨⟨⟨danglingModule, 9⟩, by decide +kernel⟩, ⟨_, _, _, rfl, rfl, rfl, fun count => ?_⟩,
    ⟨⟨selfParentModule, 7⟩, by decide +kernel⟩, ⟨_, _, rfl, rfl⟩⟩
  exact Bool.false_ne_true

end RivetLua.Runtime
