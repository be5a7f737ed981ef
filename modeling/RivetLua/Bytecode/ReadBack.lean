import RivetLua.Bytecode.RoundTrip

namespace RivetLua.Bytecode

open RivetLua.Core Check

/-!
# Bytecode — reading back an encoded module

The verifier has checked almost everything the readers check.  What it leaves open are counts:
the readers hold the bindings, the close paths and the bindings of each close path against the
constant limit, less the constants of the earlier prototypes, and the registers of a close path
against the register limit.

* `validatePrototype_readable` — what the verifier gives for one record;
* `readableFrom_iff` — for all records of a module;
* `decodeModule_encodeModule_iff` — an encoded module is read back exactly when its metadata fits.
-/

/-! ### What the verifier gives -/

/-- The metadata of a prototype fits the limits of its reader: `left` constants are left. -/
def BytecodePrototype.MetadataWithin (prototype : BytecodePrototype) (limits : VerifyLimits)
    (left : Nat) : Prop :=
  prototype.bindingRegisters.length ≤ left ∧ prototype.closePaths.length ≤ left
    ∧ ∀ path ∈ prototype.closePaths,
      path.bindings.length ≤ left ∧ path.registers.length ≤ limits.maxRegisters.toNat

theorem validateClosePath_ok {prototype : BytecodePrototype} {path : BytecodeClosePath}
    (h : validateClosePath prototype path = .ok ()) :
    path.span.Ordered ∧ path.bindings.length = path.registers.length := by
  rw [validateClosePath, then_eq_ok, reject_eq_ok] at h
  obtain ⟨h, -⟩ := h
  push Not at h
  exact ⟨UInt64.not_lt.mp h.1, h.2.2⟩

/-- A declaration marker belongs to an exit of the prototype. -/
theorem collectCloseDeclarations_exit {prototype : BytecodePrototype}
    {declared result : List BytecodeBindingId} {entries : List BytecodeInstruction}
    (h : collectCloseDeclarations prototype declared entries = .ok result)
    {entry : BytecodeInstruction} (hentry : entry ∈ entries) {dest : Register}
    {path : BytecodeClosePath} (hdecl : entry.closeDeclaration = some (dest, path))
    (hbindings : path.bindings ≠ []) : prototype.closePaths ≠ [] := by
  induction entries generalizing declared with
  | nil => cases hentry
  | cons first rest ih =>
    rw [collectCloseDeclarations] at h
    rcases List.mem_cons.mp hentry with rfl | hrest
    · rw [hdecl] at h
      obtain ⟨binding, bs, hb⟩ := List.exists_cons_of_ne_nil hbindings
      simp only [hb, then_eq_ok, reject_eq_ok, not_not] at h
      obtain ⟨-, ⟨exit, hexit, -⟩, -⟩ := h
      exact List.ne_nil_of_mem hexit
    · split at h
      · exact ih h hrest
      · split at h
        · exact ih h hrest
        · simp only [then_eq_ok] at h
          exact ih h.2.2 hrest

/-- The close path of a verified instruction is one of the prototype's, or marks a single
    binding while the prototype has close paths. -/
theorem closePath_of_verified {prototype : BytecodePrototype} {entry : BytecodeInstruction}
    (hlink : validateCloseLink prototype entry = .ok ())
    (hmarkers : validateCloseDeclarationMarkers prototype = .ok ())
    (hentry : entry ∈ prototype.instructions) {path : BytecodeClosePath}
    (hpath : entry.closePath = some path) :
    validateClosePath prototype path = .ok ()
      ∧ (path ∈ prototype.closePaths
        ∨ (path.bindings.length = 1 ∧ path.registers.length = 1 ∧ prototype.closePaths ≠ [])) := by
  rcases entry with ⟨instruction, span, closePath⟩
  cases hpath
  rw [validateCloseLink] at hlink
  split at hlink
  · -- a declaration marker
    rename_i dest src marked heq heq'
    simp only [Option.some.injEq] at heq'
    subst heq'
    simp only [then_eq_ok, reject_eq_ok] at hlink
    obtain ⟨hvalid, hmarker⟩ := hlink
    push Not at hmarker
    obtain ⟨-, -, hone, hregisters, -⟩ := hmarker
    refine ⟨hvalid, .inr ⟨hone, by rw [hregisters]; rfl, ?_⟩⟩
    rw [validateCloseDeclarationMarkers, bind_eq_ok] at hmarkers
    obtain ⟨declared, hcollect, -⟩ := hmarkers
    have hdecl : BytecodeInstruction.closeDeclaration ⟨instruction, span, some path⟩
        = some (dest, path) := by
      simp only at heq
      rw [BytecodeInstruction.closeDeclaration, heq]
    refine collectCloseDeclarations_exit hcollect hentry hdecl ?_
    intro hnil
    rw [hnil] at hone
    cases hone
  · -- a close instruction
    rename_i base count closePath heq heq'
    simp only at heq'
    subst heq'
    simp only at hlink
    split at hlink
    · simp only [then_eq_ok, reject_eq_ok] at hlink
      obtain ⟨hvalid, hclose⟩ := hlink
      push Not at hclose
      exact ⟨hvalid, .inl hclose.2.1⟩
    · cases hlink
  · cases hlink
  · rename_i heq _
    cases heq

theorem PrototypeVerified.readable {alloc : Allocator} {prototype : BytecodePrototype}
    {module : BytecodeModule} {limits : VerifyLimits}
    (h : PrototypeVerified alloc prototype module limits) {instructions constants : Nat}
    (hinstructions : instructions + prototype.instructions.length ≤ limits.maxInstructions)
    (hconstants : constants + prototype.constants.length ≤ limits.maxConstants) :
    prototype.Readable (limits.bounded instructions constants) ↔
      prototype.MetadataWithin limits (limits.maxConstants - constants) := by
  have hregisters : 1 ≤ limits.maxRegisters.toNat := by
    have hframe := h.frame
    have hparameters := h.parameters
    push Not at hframe
    simp only [UInt16.le_iff_toNat_le, UInt16.lt_iff_toNat_lt] at hframe hparameters
    omega
  have hmetadata := h.metadata
  simp only [validateMetadata, then_eq_ok, each_eq_ok] at hmetadata
  obtain ⟨-, -, -, hpaths, -⟩ := hmetadata
  constructor
  · rintro ⟨-, -, -, hbindings, -, hclose, hreadable⟩
    exact ⟨hbindings, hclose, fun path hpath => ⟨(hreadable path hpath).2.1, (hreadable path hpath).2.2.1⟩⟩
  · rintro ⟨hbindings, hclose, hwithin⟩
    have hreadable : ∀ path ∈ prototype.closePaths,
        path.Readable (limits.bounded instructions constants) := by
      intro path hpath
      obtain ⟨hordered, hlen⟩ := validateClosePath_ok (hpaths path hpath)
      exact ⟨hordered, (hwithin path hpath).1, (hwithin path hpath).2, hlen⟩
    have hspan := h.span
    push Not at hspan
    refine ⟨UInt64.not_lt.mp hspan.1, ?_, ⟨?_, ?_⟩, hbindings, ?_, hclose, hreadable⟩
    · show prototype.constants.length ≤ limits.maxConstants - constants
      omega
    · show prototype.instructions.length ≤ limits.maxInstructions - instructions
      omega
    · intro entry hentry
      obtain ⟨index, hindex⟩ := List.getElem?_of_mem hentry
      obtain ⟨hentrySpan, hshape⟩ := validateInstructions_eq_ok.mp h.instructions index entry hindex
      rw [validateInstructionShape, then_eq_ok] at hshape
      push Not at hentrySpan
      refine ⟨UInt64.not_lt.mp hentrySpan.1, fun path hpath => ?_⟩
      obtain ⟨hvalid, hmember⟩ := closePath_of_verified hshape.2 h.markers hentry hpath
      obtain ⟨hordered, hlen⟩ := validateClosePath_ok hvalid
      rcases hmember with hmember | ⟨hone, hone', hne⟩
      · exact hreadable path hmember
      · -- a marker names one binding, and there is room for at least one close path
        have hpos := List.length_pos_of_ne_nil hne
        refine ⟨hordered, ?_, ?_, hlen⟩
        · show path.bindings.length ≤ limits.maxConstants - constants
          omega
        · show path.registers.length ≤ limits.maxRegisters.toNat
          omega
    · show prototype.upvalues.length ≤ limits.maxUpvaluesPerPrototype
      exact Nat.not_lt.mp h.upvalueCount

/-! ### All records of a module -/

/-- The constants of a list of prototypes. -/
def constantTotal (prototypes : List BytecodePrototype) : Nat :=
  (prototypes.map fun prototype => prototype.constants.length).sum

/-- **When the metadata fits.** Every prototype has at most as many bindings, close paths and
    bindings per close path as the prototypes before it leave of the constant limit, and at most
    as many registers per close path as the register limit. -/
def BytecodeModule.MetadataFits (module : BytecodeModule) (limits : VerifyLimits) : Prop :=
  ∀ front prototype back, module.prototypes = front ++ prototype :: back →
    prototype.MetadataWithin limits (limits.maxConstants - constantTotal front)

theorem readableFrom_iff {alloc : Allocator} {module : BytecodeModule} {limits : VerifyLimits}
    {totals : VerifyTotals} {prototypes : List BytecodePrototype}
    (h : verifyPrototypes alloc module limits totals prototypes = .ok ()) :
    ReadableFrom limits totals.instructions totals.constants prototypes ↔
      ∀ front prototype back, prototypes = front ++ prototype :: back →
        prototype.MetadataWithin limits
          (limits.maxConstants - (totals.constants + constantTotal front)) := by
  induction prototypes generalizing totals with
  | nil => simp [ReadableFrom]
  | cons first rest ih =>
    simp only [verifyPrototypes, then_eq_ok, reject_eq_ok, Nat.not_lt] at h
    obtain ⟨hinstructions, hconstants, -, -, hvalid, hrest⟩ := h
    have hverified := validatePrototype_eq_ok.mp hvalid
    have hfirst := hverified.readable hinstructions hconstants
    rw [ReadableFrom, hfirst, ih hrest]
    constructor
    · rintro ⟨⟨-, -, hwithin⟩, hall⟩ front prototype back hsplit
      cases front with
      | nil =>
        obtain ⟨rfl, rfl⟩ := List.cons_eq_cons.mp hsplit
        simpa [constantTotal] using hwithin
      | cons p front =>
        obtain ⟨rfl, rfl⟩ := List.cons_eq_cons.mp hsplit
        have := hall front prototype back rfl
        simpa only [constantTotal, List.map_cons, List.sum_cons, Nat.add_assoc] using this
    · intro hall
      refine ⟨⟨by omega, by omega, ?_⟩, fun front prototype back hsplit => ?_⟩
      · simpa [constantTotal] using hall [] first rest rfl
      · have := hall (first :: front) prototype back (by rw [hsplit]; rfl)
        simpa only [constantTotal, List.map_cons, List.sum_cons, Nat.add_assoc] using this

/-! ### The function table -/

/-- The module with its functions listed in prototype order. -/
def BytecodeModule.listed (module : BytecodeModule) : BytecodeModule :=
  { module with functionPrototypes := functionPrototypesOf module.prototypes }

/-- The checks of a prototype do not look at the function table. -/
theorem verifyPrototypes_listed (alloc : Allocator) (module : BytecodeModule)
    (limits : VerifyLimits) (totals : VerifyTotals) (prototypes : List BytecodePrototype) :
    verifyPrototypes alloc module.listed limits totals prototypes
      = verifyPrototypes alloc module limits totals prototypes := by
  induction prototypes generalizing totals with
  | nil => rfl
  | cons first rest ih =>
    have hsame : validatePrototype alloc first module.listed limits
        = validatePrototype alloc first module limits := rfl
    simp only [verifyPrototypes, hsame, ih]

/-- Prototype identifiers are distinct, and differ from those seen before. -/
theorem verifyPrototypes_distinct {alloc : Allocator} {module : BytecodeModule}
    {limits : VerifyLimits} {totals : VerifyTotals} {prototypes : List BytecodePrototype}
    (h : verifyPrototypes alloc module limits totals prototypes = .ok ()) :
    (prototypes.map BytecodePrototype.id).Nodup
      ∧ ∀ prototype ∈ prototypes, prototype.id ∉ totals.seenPrototypes := by
  induction prototypes generalizing totals with
  | nil => simp
  | cons first rest ih =>
    simp only [verifyPrototypes, then_eq_ok, reject_eq_ok] at h
    obtain ⟨-, -, hfresh, -, -, hrest⟩ := h
    obtain ⟨hnodup, hseen⟩ := ih hrest
    refine ⟨?_, ?_⟩
    · rw [List.map_cons, List.nodup_cons]
      refine ⟨fun hmem => ?_, hnodup⟩
      obtain ⟨p, hp, hid⟩ := List.mem_map.mp hmem
      exact hseen p hp (by simp [hid])
    · intro p hp
      rcases List.mem_cons.mp hp with rfl | hp
      · exact hfresh
      · have := hseen p hp
        simp only [List.mem_append, not_or] at this
        exact this.1

/-- Looking a prototype up by its identifier finds it. -/
theorem find?_id {prototypes : List BytecodePrototype}
    (hnodup : (prototypes.map BytecodePrototype.id).Nodup) {prototype : BytecodePrototype}
    (hmem : prototype ∈ prototypes) :
    prototypes.find? (fun candidate => decide (candidate.id = prototype.id)) = some prototype := by
  induction prototypes with
  | nil => cases hmem
  | cons first rest ih =>
    rw [List.map_cons, List.nodup_cons] at hnodup
    by_cases hid : first.id = prototype.id
    · have hfirst : first = prototype := by
        rcases List.mem_cons.mp hmem with rfl | hrest
        · rfl
        · exact absurd (List.mem_map.mpr ⟨prototype, hrest, hid.symm⟩) hnodup.1
      rw [List.find?_cons_of_pos (by simpa using hid), hfirst]
    · have hrest : prototype ∈ rest := by
        rcases List.mem_cons.mp hmem with rfl | hrest
        · exact absurd rfl hid
        · exact hrest
      rw [List.find?_cons_of_neg (by simpa using hid)]
      exact ih hnodup.2 hrest

/-- A verified module is verified with its functions in prototype order as well. -/
theorem checkModule_listed {alloc : Allocator} {module : BytecodeModule}
    {expectedProfile : LuaProfile} {limits : VerifyLimits}
    (h : checkModule alloc module expectedProfile limits = .ok ()) :
    checkModule alloc module.listed expectedProfile limits = .ok () := by
  simp only [checkModule, then_eq_ok, reject_eq_ok, verifyPrototypes_listed] at h ⊢
  obtain ⟨hversion, hprofile, hnumeric, hspan, hcount, -, hprototypes, -⟩ := h
  refine ⟨hversion, hprofile, hnumeric, hspan, hcount, ?_, hprototypes, ?_⟩
  · simp [BytecodeModule.listed, functionPrototypesOf]
  · rw [each_eq_ok]
    intro entry hentry
    obtain ⟨prototype, hmem, rfl⟩ := List.mem_map.mp hentry
    rw [validateFunctionPrototype, bind_eq_ok]
    refine ⟨prototype, ?_, by simp⟩
    rw [some?_eq_ok]
    exact find?_id (verifyPrototypes_distinct hprototypes).1 hmem

/-! ### The round trip -/

theorem encodeModule_eq_ok {alloc : Allocator} {module : BytecodeModule}
    {expectedProfile : LuaProfile} {limits : VerifyLimits} {encoded : EncodedModule} :
    encodeModule alloc module expectedProfile limits = .ok encoded ↔
      checkModule alloc module expectedProfile limits = .ok ()
        ∧ writeModule module limits = .ok encoded.bytes
        ∧ encoded.bytes.length ≤ limits.maxModuleBytes
        ∧ encoded.verified = ⟨module, moduleTransportScanUnits module⟩ := by
  simp only [encodeModule, bind_eq_ok, verifyModule_eq_ok, encodeVerifiedModuleBytes_eq_ok]
  constructor
  · rintro ⟨verified, ⟨hcheck, rfl⟩, bytes, ⟨hwrite, hlen⟩, h⟩
    cases h
    exact ⟨hcheck, hwrite, hlen, rfl⟩
  · rintro ⟨hcheck, hwrite, hlen, hverified⟩
    refine ⟨_, ⟨hcheck, rfl⟩, encoded.bytes, ⟨hwrite, hlen⟩, ?_⟩
    rw [← hverified]

/-- A verified module is readable, with its functions in prototype order, exactly when its
    metadata fits. -/
theorem readable_listed_iff {alloc : Allocator} {module : BytecodeModule}
    {expectedProfile : LuaProfile} {limits : VerifyLimits}
    (h : checkModule alloc module expectedProfile limits = .ok ()) :
    module.listed.Readable expectedProfile limits ↔ module.MetadataFits limits := by
  simp only [checkModule, then_eq_ok, reject_eq_ok, not_not, Nat.not_lt] at h
  obtain ⟨hversion, hprofile, hnumeric, hspan, hcount, -, hprototypes, -⟩ := h
  have hfits : ReadableFrom limits 0 0 module.prototypes ↔ module.MetadataFits limits := by
    have := readableFrom_iff hprototypes
    simpa only [Nat.zero_add, BytecodeModule.MetadataFits] using this
  constructor
  · intro hread
    exact hfits.mp hread.prototypes
  · intro hmetadata
    exact ⟨hversion, hprofile, hnumeric, UInt64.not_lt.mp hspan, rfl, hcount, hfits.mpr hmetadata⟩

/-- **Round trip.** The bytes of an encoded module decode to the module, its functions listed in
    prototype order, exactly when the metadata of every prototype fits what the decoder leaves
    for it. -/
theorem decodeModule_encodeModule_iff {alloc : Allocator} {module : BytecodeModule}
    {expectedProfile : LuaProfile} {limits : VerifyLimits} {encoded : EncodedModule}
    (h : encodeModule alloc module expectedProfile limits = .ok encoded) :
    decodeModule alloc encoded.bytes expectedProfile limits
        = .ok ⟨module.listed, moduleTransportScanUnits module⟩
      ↔ module.MetadataFits limits := by
  obtain ⟨hcheck, hwrite, hlen, -⟩ := encodeModule_eq_ok.mp h
  rw [decodeModule_eq_ok, ← readable_listed_iff hcheck]
  constructor
  · rintro ⟨-, module', hread, -, hverify⟩
    obtain ⟨-, hmodule⟩ := verifyModule_eq_ok.mp hverify
    cases hmodule
    exact hread
  · intro hread
    exact ⟨hlen, module.listed, hread, hwrite,
      verifyModule_eq_ok.mpr ⟨checkModule_listed hcheck, rfl⟩⟩

theorem decodeModule_encodeModule_iff_emptyChunk :
    encodeModule .exact emptyChunk .lua54 .default = .ok ⟨emptyChunkBytes, ⟨emptyChunk, 4⟩⟩
      ∧ decodeModule .exact emptyChunkBytes .lua54 .default = .ok ⟨emptyChunk.listed, 4⟩ := by
  have h : encodeModule .exact emptyChunk .lua54 .default
      = .ok ⟨emptyChunkBytes, ⟨emptyChunk, 4⟩⟩ := by
    decide +kernel
  refine ⟨h, (decodeModule_encodeModule_iff h).mpr ?_⟩
  intro front prototype back hsplit
  rcases front with _ | ⟨first, front⟩
  · cases hsplit
    simp [BytecodePrototype.MetadataWithin, returnPrototype, constantTotal, VerifyLimits.default]
  · -- the module has one prototype only
    simp [emptyChunk, returnModule] at hsplit

/-- A chunk with one constant and a nested function without any. -/
def constantThenNested : BytecodeModule :=
  returnModule [returnPrototype 0 none .rootExternal [.boolean true],
    returnPrototype 1 (some 0) (.parentFrame 0 0) []]

/-- The bytes of `constantThenNested`. -/
def constantThenNestedBytes : List UInt8 :=
  [82, 86, 76, 85, 2, 0, 1, 1] ++ List.replicate 16 0
    ++ [6, 1, 0, 0, 2, 0, 0, 0]
    -- the chunk, with its constant
    ++ [121, 0, 0, 0] ++ List.replicate 25 0 ++ [1, 0, 0, 0, 0, 0, 1] ++ List.replicate 10 0
    ++ [1] ++ List.replicate 10 0
    ++ [6, 0, 0, 0, 1, 0, 0, 0, 4, 1]
    ++ [28, 0, 0, 0, 1, 0, 0, 0, 16] ++ List.replicate 23 0
    ++ [22, 0, 0, 0, 1] ++ List.replicate 21 0
    -- the nested function
    ++ [129, 0, 0, 0, 1, 0, 0, 0, 1, 0, 0, 0, 1] ++ List.replicate 20 0
    ++ [1, 0, 0, 0, 0, 0, 1] ++ List.replicate 9 0 ++ [1] ++ List.replicate 6 0
    ++ [1, 0, 0, 1] ++ List.replicate 7 0
    ++ [4, 0, 0, 0, 0, 0, 0, 0]
    ++ [28, 0, 0, 0, 1, 0, 0, 0, 16] ++ List.replicate 23 0
    ++ [22, 0, 0, 0, 1, 0, 0, 0, 1] ++ List.replicate 17 0

/-- The default limits, with room for one constant. -/
def oneConstant : VerifyLimits := { VerifyLimits.default with maxConstants := 1 }

/-- Under a limit of one constant the encoder accepts the module, but the constant of the chunk
    leaves the decoder no room for the binding of the nested function. -/
theorem not_decodeModule_constantThenNested :
    encodeModule .exact constantThenNested .lua54 oneConstant
        = .ok ⟨constantThenNestedBytes, ⟨constantThenNested, 8⟩⟩
      ∧ decodeModule .exact constantThenNestedBytes .lua54 oneConstant
        = .error (limit 268 "RVLU binding metadata 超過限制") := by
  decide +kernel

end RivetLua.Bytecode
