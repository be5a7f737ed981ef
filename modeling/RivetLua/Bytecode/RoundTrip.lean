import RivetLua.Bytecode.CodecLaws

namespace RivetLua.Bytecode

open RivetLua.Core Wire

/-!
# Bytecode — round trips of RVLU modules

* `decodeModule_eq_ok` — the decoder accepts exactly what the encoder writes for the modules that
  are readable under the limits;
* `encodeModule_decodeModule` — accepted bytes are canonical;
* `decodeModule_encodeModule_iff` — when the bytes of an encoded module are accepted again.

The encoder and the decoder do not check the same limits.  The decoder hands each prototype
record only what the earlier prototypes left of the constant limit, and counts bindings and close
paths against it as well: `MetadataFits` says when that does no harm.
-/

/-! ### The prototype section -/

/-- The records are readable one after the other, each under what the earlier ones left. -/
def ReadableFrom (limits : VerifyLimits) : Nat → Nat → List BytecodePrototype → Prop
  | _, _, [] => True
  | totalInstructions, totalConstants, prototype :: rest =>
    (totalInstructions ≤ limits.maxInstructions ∧ totalConstants ≤ limits.maxConstants
      ∧ prototype.Readable (limits.bounded totalInstructions totalConstants))
    ∧ ReadableFrom limits (totalInstructions + prototype.instructions.length)
        (totalConstants + prototype.constants.length) rest

/-- The writer of one record. -/
def writeRecord (limits : VerifyLimits) (prototype : BytecodePrototype) : Write :=
  Writer.section (encodePrototype prototype limits) "RVLU prototype record 太大"

theorem decodeRecord_eq_ok (limits : VerifyLimits) (totalInstructions totalConstants : Nat)
    (bytes : List UInt8) (start : Nat) (prototype : BytecodePrototype) :
    decodeRecord limits totalInstructions totalConstants bytes start = .ok prototype ↔
      (totalInstructions ≤ limits.maxInstructions ∧ totalConstants ≤ limits.maxConstants
        ∧ prototype.Readable (limits.bounded totalInstructions totalConstants))
      ∧ encodePrototype prototype limits = .ok bytes := by
  simp only [decodeRecord, Check.then_eq_ok, Check.reject_eq_ok, decodePrototype,
    (undoes_prototype (limits.bounded_below totalInstructions totalConstants)).runAt_eq_ok,
    Nat.not_lt, and_assoc]

theorem undoes_prototypes (limits : VerifyLimits) (count totalInstructions totalConstants : Nat) :
    Undoes (readPrototypes limits count totalInstructions totalConstants)
      (Output.each (writeRecord limits))
      fun prototypes => prototypes.length = count
        ∧ ReadableFrom limits totalInstructions totalConstants prototypes := by
  induction count generalizing totalInstructions totalConstants with
  | zero =>
    refine (Recognises.pure []).congr fun prototypes bytes => ?_
    cases prototypes <;> simp [Format.unit, ReadableFrom, Output.each, eq_comm]
  | succ count ih =>
    have h := Recognises.bind
      (undoes_section "RVLU prototype record 太大"
        (decodeRecord_eq_ok limits totalInstructions totalConstants))
      fun prototype => Recognises.bind
        (ih (totalInstructions + prototype.instructions.length)
          (totalConstants + prototype.constants.length))
        fun rest => .pure (prototype :: rest)
    simp only [bind_assoc] at h
    refine Recognises.congr h fun prototypes bytes => ?_
    constructor
    · rintro ⟨p, front, _, ⟨hp, hw⟩, ⟨rest, back, _, ⟨⟨hlen, hrest⟩, hback⟩, ⟨rfl, rfl⟩, rfl⟩, rfl⟩
      refine ⟨⟨by simp [hlen], hp, hrest⟩, ?_⟩
      rw [Output.each, Output.append_eq_ok]
      exact ⟨front, back, hw, hback, by simp⟩
    · rintro ⟨⟨hlen, hread⟩, hw⟩
      cases prototypes with
      | nil => simp at hlen
      | cons p rest =>
        rw [Output.each, Output.append_eq_ok] at hw
        obtain ⟨front, back, hp, hback, rfl⟩ := hw
        exact ⟨p, front, back, ⟨hread.1, hp⟩,
          ⟨rest, back, [], ⟨⟨by simpa using hlen, hread.2⟩, hback⟩, ⟨rfl, rfl⟩, by simp⟩, rfl⟩

theorem decodePrototypes_eq_ok (limits : VerifyLimits) (bytes : List UInt8) (base : Nat)
    (prototypes : List BytecodePrototype) :
    decodePrototypes bytes limits base = .ok prototypes ↔
      (prototypes.length ≤ limits.maxPrototypes ∧ ReadableFrom limits 0 0 prototypes)
        ∧ encodePrototypeSection prototypes limits = .ok bytes := by
  have h := (undoes_count limits.maxPrototypes "RVLU prototype 數超過限制"
    "RVLU prototype 數過大").first List.length fun count => undoes_prototypes limits count 0 0
  exact h.runAt_eq_ok

/-! ### The module -/

/-- What the readers of a module check, apart from the verifier. -/
structure BytecodeModule.Readable (module : BytecodeModule) (expectedProfile : LuaProfile)
    (limits : VerifyLimits) : Prop where
  version : module.formatVersion = rvluV2
  profile : module.profile = expectedProfile
  numericConfig : module.numericConfig = rvluNumericI64F64
  span : module.span.Ordered
  functions : module.functionPrototypes = functionPrototypesOf module.prototypes
  count : module.prototypes.length ≤ limits.maxPrototypes
  prototypes : ReadableFrom limits 0 0 module.prototypes

/-- The bytes of the prototype section make the module of a header. -/
def decodeModuleSection (limits : VerifyLimits) (header : ModuleHeader) :
    Except BytecodeError BytecodeModule := do
  let prototypes ← decodePrototypes header.prototypeSection.bytes limits
    header.prototypeSection.start
  .ok (header.module prototypes)

theorem undoes_moduleSection (limits : VerifyLimits) (version : BytecodeVersion)
    (profile : LuaProfile) (numericConfig : UInt8) (span : BytecodeSpan) :
    Undoes (do
        let contents ← Reader.section
        compute (decodeModuleSection limits ⟨version, profile, numericConfig, span, contents⟩))
      (fun module => Writer.section (encodePrototypeSection module.prototypes limits)
        "RVLU prototype section 太大")
      fun module => (module.formatVersion = version ∧ module.profile = profile
        ∧ module.numericConfig = numericConfig ∧ module.span = span
        ∧ module.functionPrototypes = functionPrototypesOf module.prototypes)
        ∧ module.prototypes.length ≤ limits.maxPrototypes
        ∧ ReadableFrom limits 0 0 module.prototypes := by
  have hdecode : ∀ bytes start module,
      decodeModuleSection limits ⟨version, profile, numericConfig, span, ⟨bytes, start⟩⟩
        = .ok module ↔
      ((module.formatVersion = version ∧ module.profile = profile
        ∧ module.numericConfig = numericConfig ∧ module.span = span
        ∧ module.functionPrototypes = functionPrototypesOf module.prototypes)
        ∧ module.prototypes.length ≤ limits.maxPrototypes
        ∧ ReadableFrom limits 0 0 module.prototypes)
      ∧ encodePrototypeSection module.prototypes limits = .ok bytes := by
    intro bytes start module
    simp only [decodeModuleSection, Check.bind_eq_ok, decodePrototypes_eq_ok]
    constructor
    · rintro ⟨prototypes, ⟨hread, hw⟩, h⟩
      cases h
      exact ⟨⟨⟨rfl, rfl, rfl, rfl, rfl⟩, hread⟩, hw⟩
    · rintro ⟨⟨⟨rfl, rfl, rfl, rfl, hfunctions⟩, hread⟩, hw⟩
      refine ⟨module.prototypes, ⟨hread, hw⟩, ?_⟩
      rw [ModuleHeader.module, ← hfunctions]
  exact undoes_section "RVLU prototype section 太大" hdecode

/-- The reader of a whole module. -/
theorem undoes_module (expectedProfile : LuaProfile) (limits : VerifyLimits) :
    Undoes (do
        let header ← readModuleHeader expectedProfile
        compute (decodeModuleSection limits header))
      (fun module => writeModule module limits)
      fun module => module.Readable expectedProfile limits := by
  have h := Recognises.bind (.take (fun position => verify position "RVLU bytes 截斷") 4) fun magic =>
    Recognises.reject_bind (c := magic ≠ rvluMagic) (e := verify 0 "RVLU magic 不符") fun _ =>
    Recognises.bind undoes_u16 fun version =>
    Recognises.reject_bind (c := version = rvluV1)
      (e := verify 4 "RVLU v1 語意不完整，明確拒絕") fun _ =>
    Recognises.reject_bind (c := version ≠ rvluV2)
      (e := verify 4 "RVLU format version 不支援") fun _ =>
    Recognises.bind (undoes_tag parseProfile_eq_ok 6) fun profile =>
    Recognises.reject_bind (c := profile ≠ expectedProfile) (e := verify 6 "RVLU profile 不符") fun _ =>
    Recognises.bind undoes_u8 fun numericConfig =>
    Recognises.reject_bind (c := numericConfig ≠ rvluNumericI64F64)
      (e := verify 7 "RVLU numeric configuration 不支援") fun _ =>
    Recognises.bind undoes_span fun span =>
      undoes_moduleSection limits version profile numericConfig span
  simp only [readModuleHeader, bind_assoc, pure_bind]
  refine Recognises.congr h fun module bytes => ?_
  simp only [writeModule, Output.append_eq_ok, not_not]
  constructor
  · rintro ⟨magic, front₁, _, ⟨-, rfl⟩, ⟨rfl, version, front₂, _, ⟨-, hversion⟩, ⟨-, rfl, profile,
      front₃, _, ⟨-, hprofile⟩, ⟨rfl, numericConfig, front₄, _, ⟨-, hnumeric⟩, ⟨rfl, span, front₅,
      back, ⟨hordered, hspan⟩, ⟨⟨⟨hv, rfl, hn, rfl, hfunctions⟩, hcount, hread⟩, hback⟩,
      rfl⟩, rfl⟩, rfl⟩, rfl⟩, rfl⟩
    refine ⟨⟨hv, rfl, hn, hordered, hfunctions, hcount, hread⟩, rvluMagic, _, rfl,
      ⟨front₂, _, hversion, ⟨front₃, _, hprofile, ⟨front₄, _, ?_, ⟨front₅, back, hspan, hback,
        rfl⟩, rfl⟩, rfl⟩, rfl⟩, rfl⟩
    rw [hn]
    exact hnumeric
  · rintro ⟨⟨hv, rfl, hn, hordered, hfunctions, hcount, hread⟩, _, _, hmagic, ⟨front₂, _, hversion,
      ⟨front₃, _, hprofile, ⟨front₄, _, hnumeric, ⟨front₅, back, hspan, hback, rfl⟩, rfl⟩, rfl⟩,
      rfl⟩, rfl⟩
    cases hmagic
    exact ⟨rvluMagic, rvluMagic, _, ⟨rfl, rfl⟩, ⟨rfl, rvluV2, front₂, _, ⟨trivial, hversion⟩,
      ⟨by decide, rfl, module.profile, front₃, _, ⟨trivial, hprofile⟩, ⟨rfl, module.numericConfig,
      front₄, _, ⟨trivial, hnumeric⟩, ⟨hn, module.span, front₅, back, ⟨hordered, hspan⟩,
      ⟨⟨⟨hv, rfl, rfl, rfl, hfunctions⟩, hcount, hread⟩, hback⟩, rfl⟩, rfl⟩, rfl⟩, rfl⟩, rfl⟩

/-- **The decoder.** It accepts exactly what the encoder writes for the readable modules that
    pass the verifier. -/
theorem decodeModule_eq_ok {alloc : Allocator} {bytes : List UInt8} {expectedProfile : LuaProfile}
    {limits : VerifyLimits} {verified : VerifiedModule} :
    decodeModule alloc bytes expectedProfile limits = .ok verified ↔
      bytes.length ≤ limits.maxModuleBytes ∧ ∃ module : BytecodeModule,
        module.Readable expectedProfile limits ∧ writeModule module limits = .ok bytes
          ∧ verifyModule alloc module expectedProfile limits = .ok verified := by
  have hsplit : decodeModule alloc bytes expectedProfile limits = (do
      Check.reject (limits.maxModuleBytes < bytes.length) (limit 0 "RVLU module bytes 超過限制")
      let module ← (do
        let header ← runAt (do
          let header ← readModuleHeader expectedProfile
          finished fun position => verify position "RVLU module 有未宣告尾端 bytes"
          pure header) bytes 0
        decodeModuleSection limits header)
      verifyModule alloc module expectedProfile limits) := by
    simp only [decodeModule, decodeModuleSection, bind_assoc]
    rfl
  rw [hsplit, Check.then_eq_ok, Check.reject_eq_ok, Check.bind_eq_ok, Nat.not_lt]
  simp only [runAt_finished_bind_eq_ok, (undoes_module expectedProfile limits).runAt_eq_ok,
    and_assoc]

/-! ### Canonical bytes -/

/-- The outputs of two writers agree where both succeed. -/
def OutputsAgree (x y : Write) : Prop := ∀ bytes bytes', x = .ok bytes → y = .ok bytes' → bytes = bytes'

namespace OutputsAgree

theorem refl (x : Write) : OutputsAgree x x := by
  intro bytes bytes' h h'
  rw [h] at h'
  cases h'
  rfl

theorem append {x x' y y' : Write} (hx : OutputsAgree x x') (hy : OutputsAgree y y') :
    OutputsAgree (x ++ y) (x' ++ y') := by
  intro bytes bytes' h h'
  obtain ⟨front, back, hf, hb, rfl⟩ := Output.append_eq_ok.mp h
  obtain ⟨front', back', hf', hb', rfl⟩ := Output.append_eq_ok.mp h'
  rw [hx _ _ hf hf', hy _ _ hb hb']

theorem reject {c c' : Prop} [Decidable c] [Decidable c'] {e e' : BytecodeError} (x : Write) :
    OutputsAgree (Writer.reject c e ++ x) (Writer.reject c' e' ++ x) := by
  intro bytes bytes' h h'
  exact refl x _ _ (Writer.reject_append_eq_ok.mp h).2 (Writer.reject_append_eq_ok.mp h').2

theorem «section» {x x' : Write} {message : String} (h : OutputsAgree x x') :
    OutputsAgree (Writer.section x message) (Writer.section x' message) := by
  intro bytes bytes' hs hs'
  obtain ⟨contents, hc, -, rfl⟩ := Writer.section_eq_ok.mp hs
  obtain ⟨contents', hc', -, rfl⟩ := Writer.section_eq_ok.mp hs'
  rw [h _ _ hc hc']

theorem each {α : Type} {w w' : α → Write} (h : ∀ a, OutputsAgree (w a) (w' a)) (as : List α) :
    OutputsAgree (Output.each w as) (Output.each w' as) := by
  induction as with
  | nil => exact refl _
  | cons a as ih => exact (h a).append ih

end OutputsAgree

/-- The limits decide whether a module is written, not what is written. -/
theorem outputsAgree_writeModule (module : BytecodeModule) (limits limits' : VerifyLimits) :
    OutputsAgree (writeModule module limits) (writeModule module limits') := by
  have hprototype : ∀ p, OutputsAgree (encodePrototype p limits) (encodePrototype p limits') := by
    intro p
    unfold encodePrototype
    iterate 11 refine (OutputsAgree.refl _).append ?_
    exact (OutputsAgree.reject _).section.append
      ((OutputsAgree.reject _).section.append (OutputsAgree.reject _).section)
  unfold writeModule
  iterate 5 refine (OutputsAgree.refl _).append ?_
  exact OutputsAgree.section
    ((OutputsAgree.refl _).append (OutputsAgree.each (fun p => (hprototype p).section) _))

theorem verifyModule_eq_ok {alloc : Allocator} {module : BytecodeModule}
    {expectedProfile : LuaProfile} {limits : VerifyLimits} {verified : VerifiedModule} :
    verifyModule alloc module expectedProfile limits = .ok verified ↔
      checkModule alloc module expectedProfile limits = .ok ()
        ∧ verified = ⟨module, moduleTransportScanUnits module⟩ := by
  rw [verifyModule, Check.then_eq_ok]
  simp [eq_comm]

theorem encodeVerifiedModuleBytes_eq_ok {verified : VerifiedModule} {limits : VerifyLimits}
    {bytes : List UInt8} :
    encodeVerifiedModuleBytes verified limits = .ok bytes ↔
      writeModule verified.module limits = .ok bytes ∧ bytes.length ≤ limits.maxModuleBytes := by
  rw [encodeVerifiedModuleBytes, Check.bind_eq_ok]
  constructor
  · rintro ⟨bs, hbs, h⟩
    rw [Check.then_eq_ok, Check.reject_eq_ok] at h
    obtain ⟨hle, h⟩ := h
    cases h
    exact ⟨Output.toExcept_eq_ok.mp hbs, Nat.not_lt.mp hle⟩
  · rintro ⟨hbs, hle⟩
    refine ⟨bytes, Output.toExcept_eq_ok.mpr hbs, ?_⟩
    rw [Check.then_eq_ok, Check.reject_eq_ok]
    exact ⟨Nat.not_lt.mpr hle, rfl⟩

/-- **Canonical bytes.** Encoding the result of the decoder gives back the bytes it read, and no
    other byte string decodes to the same module, under any profile and limits. -/
theorem encodeModule_decodeModule {alloc : Allocator} {bytes : List UInt8}
    {expectedProfile : LuaProfile} {limits : VerifyLimits} {verified : VerifiedModule}
    (h : decodeModule alloc bytes expectedProfile limits = .ok verified) :
    encodeVerifiedModuleBytes verified limits = .ok bytes
      ∧ encodeModule alloc verified.module expectedProfile limits = .ok ⟨bytes, verified⟩
      ∧ ∀ (alloc' : Allocator) (bytes' : List UInt8) (profile' : LuaProfile)
          (limits' : VerifyLimits) (verified' : VerifiedModule),
        decodeModule alloc' bytes' profile' limits' = .ok verified' →
          verified'.module = verified.module → bytes' = bytes := by
  obtain ⟨hlen, module, -, hwrite, hverify⟩ := decodeModule_eq_ok.mp h
  have hmodule : verified.module = module := by rw [(verifyModule_eq_ok.mp hverify).2]
  have hbytes : encodeVerifiedModuleBytes verified limits = .ok bytes :=
    encodeVerifiedModuleBytes_eq_ok.mpr ⟨by rw [hmodule]; exact hwrite, hlen⟩
  refine ⟨hbytes, ?_, ?_⟩
  · rw [encodeModule, Check.bind_eq_ok]
    refine ⟨verified, by rw [hmodule]; exact hverify, ?_⟩
    rw [Check.bind_eq_ok]
    exact ⟨bytes, hbytes, rfl⟩
  · intro alloc' bytes' profile' limits' verified' h' hsame
    obtain ⟨-, module', -, hwrite', hverify'⟩ := decodeModule_eq_ok.mp h'
    have hmodule' : verified'.module = module' := by rw [(verifyModule_eq_ok.mp hverify').2]
    rw [← hmodule', hsame, hmodule] at hwrite'
    exact outputsAgree_writeModule module limits' limits _ _ hwrite' hwrite

/-- A function that only returns; its single binding is the environment. -/
def returnPrototype (id : ProtoId) (parent : Option ProtoId) (environment : EnvironmentSource)
    (constants : List BytecodeConstant) : BytecodePrototype where
  id := id
  function := id
  parent := parent
  span := ⟨0, 0⟩
  registerCount := 1
  parameterCount := 0
  isVariadic := false
  namedVararg := none
  frame := ⟨1, 0, 0, 0, 0, environment, true⟩
  globalEnvironment := 0
  globalEnvironmentBinding := ⟨id, 0⟩
  bindingRegisters := [(⟨id, 0⟩, 0)]
  constants := constants
  upvalues := []
  instructions := [⟨.ret 0 (.fixed 0), ⟨0, 0⟩, none⟩]
  closePaths := []

/-- A module of the given prototypes. -/
def returnModule (prototypes : List BytecodePrototype) : BytecodeModule where
  formatVersion := rvluV2
  profile := .lua54
  numericConfig := rvluNumericI64F64
  span := ⟨0, 0⟩
  functionPrototypes := functionPrototypesOf prototypes
  prototypes := prototypes

/-- The empty chunk. -/
def emptyChunk : BytecodeModule := returnModule [returnPrototype 0 none .rootExternal []]

/-- The bytes of the empty chunk. -/
def emptyChunkBytes : List UInt8 :=
  -- magic, version, profile, numeric configuration and span
  [82, 86, 76, 85, 2, 0, 1, 1] ++ List.replicate 16 0
    -- the prototype section: one record
    ++ [127, 0, 0, 0, 1, 0, 0, 0, 119, 0, 0, 0]
    -- identifiers, span, frame and environment
    ++ List.replicate 25 0 ++ [1, 0, 0, 0, 0, 0, 1] ++ List.replicate 10 0 ++ [1]
    ++ List.replicate 10 0
    -- no constants, one instruction, one binding
    ++ [4, 0, 0, 0, 0, 0, 0, 0]
    ++ [28, 0, 0, 0, 1, 0, 0, 0, 16] ++ List.replicate 23 0
    ++ [22, 0, 0, 0, 1] ++ List.replicate 21 0

theorem encodeModule_decodeModule_emptyChunk :
    decodeModule .exact emptyChunkBytes .lua54 .default = .ok ⟨emptyChunk, 4⟩
      ∧ encodeModule .exact emptyChunk .lua54 .default = .ok ⟨emptyChunkBytes, ⟨emptyChunk, 4⟩⟩ := by
  have h : decodeModule .exact emptyChunkBytes .lua54 .default = .ok ⟨emptyChunk, 4⟩ := by
    decide +kernel
  exact ⟨h, (encodeModule_decodeModule h).2.1⟩

end RivetLua.Bytecode
