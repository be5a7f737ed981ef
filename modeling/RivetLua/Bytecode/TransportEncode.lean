import RivetLua.Bytecode.NativeWire
import RivetLua.Bytecode.OfficialLength
import RivetLua.Bytecode.Signature
import RivetLua.Bytecode.WireUpper

namespace RivetLua.Bytecode.Transport

open RivetLua.Core Wire

/-!
# Bytecode — the encoder of the transport

A module is sent as RVLU bytes and a sidecar.  The encoder announces first how long both will be and
what the work will cost, pays for it, and writes them afterwards; it gives up if it finds that they
have become longer than announced.

* `OfficialArtifact` — the chunk that a translated module keeps, with what it takes;
* `preflightTransportEncode` — the announcement;
* `encodeTransportModule` — the encoder;
* `encodeTransportModule_announced` — nothing is longer than announced.
-/

/-! ### The artifact -/

/-- What `OfficialArtifact::new` measures beside the chunk: the sizes of an artifact and of a pc
    map, the capacity of the vector of the pc maps, and the bytes of each. -/
structure PcMappings where
  artifactSize : Nat
  mapSize : Nat
  capacity : Nat
  maps : List (Option Nat)

/-- `checked_add` of optional numbers. -/
def addOption (left right : Option Nat) : Option Nat := do
  let left ← left
  let right ← right
  if left + right > usizeMax then none else some (left + right)

/-- The bytes of an artifact. -/
def PcMappings.total (mappings : PcMappings) (chunkBytes : Nat) : Option Nat :=
  let pointers := addOption (addOption (some chunkBytes) (some mappings.artifactSize)) (some 16)
  let vector := if mappings.capacity * mappings.mapSize > usizeMax then none
    else some (mappings.capacity * mappings.mapSize)
  mappings.maps.foldl addOption (addOption pointers vector)

/-- `OfficialArtifact`: what it takes covers what the records and the strings of its chunk take. -/
structure OfficialArtifact (sizes : Official.Memory) where
  chunk : Official.OfficialChunk
  allocatedBytes : Nat
  covers : chunk.main.total (Official.OfficialPrototype.stored sizes) ≤ allocatedBytes

theorem addOption_eq_some {left right : Option Nat} {sum : Nat}
    (h : addOption left right = some sum) : ∃ value, left = some value ∧ value ≤ sum := by
  cases left with
  | none => cases h
  | some value =>
    cases right with
    | none => cases h
    | some more =>
      refine ⟨value, rfl, ?_⟩
      by_cases hover : value + more > usizeMax
      · have hnone : addOption (some value) (some more) = none := if_pos hover
        rw [hnone] at h
        cases h
      · have hsome : addOption (some value) (some more) = some (value + more) := if_neg hover
        rw [hsome] at h
        cases h
        exact Nat.le_add_right _ _

theorem foldl_addOption {items : List (Option Nat)} {left : Option Nat} {sum : Nat}
    (h : items.foldl addOption left = some sum) : ∃ value, left = some value ∧ value ≤ sum := by
  induction items generalizing left with
  | nil => exact ⟨sum, h, Nat.le_refl _⟩
  | cons item items ih =>
    obtain ⟨middle, hmiddle, hle⟩ := ih h
    obtain ⟨value, hvalue, hle'⟩ := addOption_eq_some hmiddle
    exact ⟨value, hvalue, Nat.le_trans hle' hle⟩

theorem PcMappings.chunkBytes_le {mappings : PcMappings} {chunkBytes total : Nat}
    (h : mappings.total chunkBytes = some total) : chunkBytes ≤ total := by
  obtain ⟨_, hvector, hle⟩ := foldl_addOption h
  obtain ⟨_, hpointers, hle'⟩ := addOption_eq_some hvector
  obtain ⟨_, hself, hle''⟩ := addOption_eq_some hpointers
  obtain ⟨value, hvalue, hle'''⟩ := addOption_eq_some hself
  cases hvalue
  omega

/-- `OfficialArtifact::new`, of the copy of a chunk. -/
def OfficialArtifact.new (memory : Official.EncodeMemory) {source chunk : Official.OfficialChunk}
    {limits : Official.OfficialChunkLimits} {chunkBytes : Nat}
    (h : Official.cloneOfficialChunkChecked memory source limits = .ok (chunk, chunkBytes))
    (mappings : PcMappings) (maxBytes : Nat) : Option (OfficialArtifact memory.toMemory) :=
  match htotal : mappings.total chunkBytes with
  | none => none
  | some total =>
    if maxBytes < total then none
    else some ⟨chunk, total, by
      obtain ⟨rfl, hstored⟩ := Official.stored_le_cloneOfficialChunkChecked h
      exact Nat.le_trans hstored (PcMappings.chunkBytes_le htotal)⟩

/-- A `VerifiedModule` with the private data that may be attached to it. -/
structure TransportModule (sizes : Official.Memory) where
  verified : VerifiedModule
  officialExecution : Option OfficialExecutionPlan
  officialArtifact : Option (OfficialArtifact sizes)
  nativeDebug : Option NativeDebug

/-! ### Limits and errors -/

/-- `TransportLimits`. -/
structure TransportLimits where
  verify : VerifyLimits
  official : Official.OfficialChunkLimits
  maxSidecarBytes : Nat
  maxTemporaryBytes : Nat
  maxRetainedBytes : Nat
  maxWork : Nat
  deriving DecidableEq, Repr

/-- `TransportAdmission`. -/
structure TransportAdmission where
  subsequentWork : Nat
  temporaryBytes : Nat
  retainedBytes : Nat
  rvluBytesUpper : Nat
  sidecarBytesUpper : Nat
  deriving DecidableEq, Repr

/-- `From<BytecodeError>`. -/
def ofBytecodeError (error : BytecodeError) : TransportError where
  kind :=
    match error.code with
    | .compileLimit => .limitExceeded
    | .allocationFailed => .allocationFailed
    | .verify => .bytecode
  offset := error.offset
  detail := "RVLU 驗證或編碼失敗"

/-- `From<OfficialChunkError>`. -/
def ofOfficialChunkError (error : Official.OfficialChunkError) : TransportError where
  kind :=
    match error.kind with
    | .limitExceeded | .overflow | .workExhausted => .limitExceeded
    | .allocationFailed => .allocationFailed
    | .truncated | .invalidFormat => .officialChunk
  offset := error.offset
  detail := "官方 chunk 無效"

/-- The result of another part, with its errors as those of the transport. -/
def liftError {ε α : Type} (f : ε → TransportError) : Except ε α → Except TransportError α
  | .ok a => .ok a
  | .error e => .error (f e)

/-- `u64::MAX`, which is `usize::MAX` as well. -/
def checkedU64 (value : Nat) : Except TransportError Nat :=
  if value < 2 ^ 64 then .ok value else .error (limit "傳輸 length 超過 u64")

/-- `OfficialWorkBudget`. -/
structure OfficialWorkBudget where
  remaining : Nat
  consumed : Nat
  deriving DecidableEq, Repr

/-- `charge_work`. -/
def chargeWork (work : OfficialWorkBudget) (units : Nat) :
    Except TransportError OfficialWorkBudget :=
  if units > work.remaining then .error ⟨.limitExceeded, 0, "官方 chunk 轉譯失敗"⟩
  else if work.consumed + units ≥ 2 ^ 64 then
    .error ⟨.officialTranslation, 0, "官方 chunk 轉譯失敗"⟩
  else .ok ⟨work.remaining - units, work.consumed + units⟩

/-! ### The announcement -/

section Announcement

variable {sizes : Official.Memory} (module : TransportModule sizes) (limits : TransportLimits)

/-- The work for bytes that are attached to a module, on top of other work. -/
def attachedWork (work : Nat) : Option Nat → Except TransportError Nat
  | none => .ok work
  | some allocated => do
    let units ← checkedMul allocated 4
    checkedAdd work units

/-- The work for the plan. -/
def planWork (work : Nat) : Option OfficialExecutionPlan → Except TransportError Nat
  | none => .ok work
  | some plan => do
    let allocated ← Check.some? plan.allocatedBytes (limit "private plan 容量溢位")
    attachedWork work (some allocated)

/-- `transport_encode_scan_admission`: the work of the scan. -/
def transportEncodeScanAdmission : Except TransportError Nat := do
  let work ← checkedMul module.verified.transportScanUnits 4
  let work ← attachedWork work (module.officialArtifact.map OfficialArtifact.allocatedBytes)
  let work ← attachedWork work (module.nativeDebug.map NativeDebug.allocatedBytes)
  let work ← planWork work module.officialExecution
  let work ← checkedU64 work
  Check.reject (work > limits.maxWork) (limit "transport 編碼掃描 work 超限")
  .ok work

/-- The sidecars. -/
inductive SidecarKind (sizes : Official.Memory) where
  | empty
  | official (artifact : OfficialArtifact sizes)
  | native (debug : NativeDebug)
  | declarations (plan : OfficialExecutionPlan) (debug : Option NativeDebug)

/-- The number of a sidecar in its header. -/
def SidecarKind.tag {sizes : Official.Memory} : SidecarKind sizes → UInt8
  | .empty => 0
  | .official _ => 1
  | .native _ => 2
  | .declarations _ _ => 3

/-- `transport_kind`, together with the data that the kind speaks about. -/
def transportKind : Except TransportError (SidecarKind sizes) :=
  match module.officialExecution, module.officialArtifact, module.nativeDebug with
  | none, none, none => .ok .empty
  | some plan, some artifact, none =>
    if ¬ plan.nativeBuiltin then .ok (.official artifact)
    else .error (invalid 0 "私有 plan/artifact/native debug 狀態不一致")
  | none, none, some debug => .ok (.native debug)
  | some plan, none, debug =>
    if plan.nativeBuiltin then .ok (.declarations plan debug)
    else .error (invalid 0 "私有 plan/artifact/native debug 狀態不一致")
  | _, _, _ => .error (invalid 0 "私有 plan/artifact/native debug 狀態不一致")

/-- `HEADER_LEN`. -/
def headerLen : Nat := 16

/-- The bound of the sidecar. -/
def sidecarUpper : SidecarKind sizes → Except TransportError Nat
  | .empty => .ok headerLen
  | .official artifact => do
    let body ← checkedMul artifact.allocatedBytes 4
    let body ← checkedAdd body 1024
    checkedAdd headerLen body
  | .native debug => do
    let body ← nativeBodySize debug.candidate.sourceName debug.candidate.prototypes
    checkedAdd headerLen body
  | .declarations plan debug => do
    let body ← nativeDeclarationsSize plan debug
    checkedAdd headerLen body

/-- The instructions of a module. -/
def totalInstructions (prototypes : List BytecodePrototype) : Except TransportError Nat :=
  prototypes.foldlM (fun total prototype => checkedAdd total prototype.instructions.length) 0

/-- The work that the sidecar adds to the work for the RVLU bytes. -/
def sidecarWork (kind : SidecarKind sizes) (rvluUpper sidecarUpper instructions work : Nat) :
    Except TransportError Nat :=
  match kind with
  | .empty => .ok work
  | .official artifact => do
    let square ← checkedMul artifact.allocatedBytes artifact.allocatedBytes
    let units ← checkedMul square 4
    checkedAdd work units
  | .native _ => do
    let units ← checkedMul sidecarUpper 64
    checkedAdd work units
  | .declarations plan _ => do
    let units ← checkedMul sidecarUpper 64
    let work ← checkedAdd work units
    let units ← checkedMul rvluUpper 64
    let work ← checkedAdd work units
    let product ← checkedMul plan.calls.length instructions
    let units ← checkedMul product 512
    checkedAdd work units

/-- `bound_admission`. -/
def boundAdmission (admission : TransportAdmission) : Except TransportError TransportAdmission := do
  Check.reject (admission.rvluBytesUpper > limits.verify.maxModuleBytes
      ∨ admission.sidecarBytesUpper > limits.maxSidecarBytes
      ∨ admission.temporaryBytes > limits.maxTemporaryBytes
      ∨ admission.retainedBytes > limits.maxRetainedBytes
      ∨ admission.subsequentWork > limits.maxWork)
    (limit "transport 預准入上限")
  .ok admission

/-- `preflight_transport_encode`. -/
def preflightTransportEncode : Except TransportError TransportAdmission := do
  let scan ← transportEncodeScanAdmission module limits
  let kind ← transportKind module
  Check.reject (module.verified.module.prototypes.length > limits.verify.maxPrototypes)
    (limit "RVLU prototype count 超限")
  let rvluUpper ← bytecodeWireUpperBytes module.verified.module
  let sidecarUpper ← sidecarUpper kind
  let instructions ← totalInstructions module.verified.module.prototypes
  let rvluWork ← checkedMul rvluUpper 64
  let scanWork ← checkedMul module.verified.transportScanUnits 64
  let work ← checkedAdd rvluWork scanWork
  let square ← checkedMul instructions instructions
  let squareWork ← checkedMul square 256
  let work ← checkedAdd work squareWork
  let work ← sidecarWork kind rvluUpper sidecarUpper instructions work
  let rvluTemporary ← checkedMul rvluUpper 16
  let sidecarTemporary ← checkedMul sidecarUpper 4
  let temporary ← checkedAdd rvluTemporary sidecarTemporary
  let retained ← checkedAdd rvluUpper sidecarUpper
  let subsequent ← checkedU64 work
  let result ← boundAdmission limits ⟨subsequent, temporary, retained, rvluUpper, sidecarUpper⟩
  Check.reject (scan + result.subsequentWork ≥ 2 ^ 64
      ∨ scan + result.subsequentWork > limits.maxWork)
    (limit "transport encode scan+operation work 超限")
  .ok result

end Announcement

/-! ### The encoder -/

/-- What the compiler and the allocator decide about the encoder: the answers to the requests of the
    RVLU writer, what the official encoder gets, the capacity that a request for the sidecar gets if
    it gets any, and the capacity of a vector that has grown to a length. -/
structure TransportMemory where
  rvlu : Wire.Memory
  official : Official.EncodeMemory
  sidecar : Nat → Option Nat
  grown : Nat → Nat

/-- No request gets more than it asks for. -/
structure TransportMemory.Exact (memory : TransportMemory) : Prop where
  rvlu : memory.rvlu.Exact
  sidecar : ∀ size capacity, memory.sidecar size = some capacity → capacity = size

/-- A request gets at least what it asks for. -/
def TransportMemory.Enough (memory : TransportMemory) : Prop :=
  ∀ size capacity, memory.sidecar size = some capacity → size ≤ capacity

/-- `EncodedTransportModule`. -/
structure EncodedTransportModule where
  rvlu : List UInt8
  sidecar : List UInt8
  deriving DecidableEq

/-- `allocate_bytes`: the capacity. -/
def allocateBytes (memory : TransportMemory) (size maximum : Nat) : Except TransportError Nat := do
  Check.reject (size > maximum) (limit "傳輸配置上限")
  let capacity ← Check.some? (memory.sidecar size) (allocated "傳輸輸出配置失敗")
  Check.reject (capacity > maximum) (limit "傳輸實際容量超限")
  .ok capacity

/-- `MAGIC` of a sidecar. -/
def sidecarMagic : List UInt8 := [0x52, 0x56, 0x41, 0x53]

/-- `write_header`. -/
def writeHeader (tag : UInt8) (length : Nat) : Except TransportError (List UInt8) := do
  let length ← checkedU64 length
  .ok (sidecarMagic ++ littleEndian 2 1 ++ [tag, 0] ++ littleEndian 8 length)

section Encoder

variable {sizes : Official.Memory} (memory : TransportMemory) (hash : List UInt8 → Nat)

/-- The body of an official sidecar, which is written before the sidecar. -/
def officialBody (kind : SidecarKind sizes) (profile : LuaProfile)
    (limits : TransportLimits) (work : Nat) : Except TransportError (List UInt8) :=
  match kind with
  | .official artifact => do
    Check.reject (artifact.chunk.profile ≠ profile) (invalid 0 "官方來源 profile 不符")
    let (body, _) ← liftError ofOfficialChunkError
      (Official.encodeOfficialChunkMetered memory.official hash artifact.chunk false limits.official
        work)
    .ok body
  | _ => .ok []

/-- The length of the sidecar. -/
def sidecarLen (kind : SidecarKind sizes) (body : List UInt8) : Except TransportError Nat :=
  match kind with
  | .empty => .ok headerLen
  | .official _ => checkedAdd headerLen body.length
  | .native debug => do
    let size ← nativeBodySize debug.candidate.sourceName debug.candidate.prototypes
    checkedAdd headerLen size
  | .declarations plan debug => do
    let size ← nativeDeclarationsSize plan debug
    checkedAdd headerLen size

/-- What comes behind the header. -/
def sidecarBody (kind : SidecarKind sizes) (rvlu body : List UInt8) :
    Except TransportError (List UInt8) :=
  match kind with
  | .empty => .ok []
  | .official _ => .ok body
  | .native debug =>
    (writeNativeBody debug.candidate.sourceName debug.candidate.prototypes).toExcept
  | .declarations plan debug => (writeNativeDeclarations (sha256 rvlu) plan debug).toExcept

/-- `encode_transport_module`. -/
def encodeTransportModule (module : TransportModule sizes) (limits : TransportLimits)
    (work : OfficialWorkBudget) :
    Except TransportError (EncodedTransportModule × OfficialWorkBudget) := do
  let scan ← transportEncodeScanAdmission module limits
  let work ← chargeWork work scan
  let admission ← preflightTransportEncode module limits
  let kind ← transportKind module
  let work ← chargeWork work admission.subsequentWork
  let bound ← checkedMul admission.rvluBytesUpper 2
  let rvlu ← liftError ofBytecodeError
    (encodeVerifiedModuleBytesBounded memory.rvlu module.verified limits.verify bound)
  Check.reject (rvlu.bytes.length > admission.rvluBytesUpper
      ∨ rvlu.capacity > admission.temporaryBytes)
    (limit "RVLU 輸出超出預准入")
  let body ← officialBody memory hash kind module.verified.module.profile limits
    admission.subsequentWork
  let length ← sidecarLen kind body
  Check.reject (length > admission.sidecarBytesUpper) (limit "sidecar 輸出超出預准入")
  let capacity ← allocateBytes memory length limits.maxSidecarBytes
  let header ← writeHeader kind.tag length
  let back ← sidecarBody kind rvlu.bytes body
  let sidecar := header ++ back
  let capacity := if sidecar.length ≤ capacity then capacity else memory.grown sidecar.length
  Check.reject (sidecar.length ≠ length) (limit "transport 輸出實際容量超限")
  let total ← checkedAdd rvlu.capacity capacity
  Check.reject (total > admission.retainedBytes) (limit "transport 輸出實際容量超限")
  .ok (⟨rvlu.bytes, sidecar⟩, work)

end Encoder

/-! ### What was announced -/

/-- The error that says that the output is longer than announced, in one of the three places. -/
def OverAnnounced (e : TransportError) : Prop :=
  e.detail = "RVLU 輸出超出預准入" ∨ e.detail = "sidecar 輸出超出預准入"
    ∨ e.detail = "transport 輸出實際容量超限"

instance (e : TransportError) : Decidable (OverAnnounced e) :=
  inferInstanceAs (Decidable (_ ∨ _ ∨ _))

/-- A computation that never says so. -/
abbrev Quiet {α : Type} (x : Except TransportError α) : Prop :=
  Check.Errors (fun e => ¬ OverAnnounced e) x

section Quiet

theorem quiet_checkedAdd (left right : Nat) : Quiet (checkedAdd left right) := by
  unfold checkedAdd
  split
  · exact .error (by decide)
  · exact .ok _

theorem quiet_checkedMul (left right : Nat) : Quiet (checkedMul left right) := by
  unfold checkedMul
  split
  · exact .error (by decide)
  · exact .ok _

theorem quiet_checkedU32 (value : Nat) : Quiet (checkedU32 value) := by
  unfold checkedU32
  split
  · exact .ok _
  · exact .error (by decide)

theorem quiet_checkedU64 (value : Nat) : Quiet (checkedU64 value) := by
  unfold checkedU64
  split
  · exact .ok _
  · exact .error (by decide)

theorem quiet_foldlM {α : Type} {step : Nat → α → Except TransportError Nat}
    (h : ∀ n a, Quiet (step n a)) (items : List α) (n : Nat) : Quiet (items.foldlM step n) := by
  induction items generalizing n with
  | nil => exact .ok n
  | cons a items ih =>
    rw [List.foldlM_cons]
    exact (h n a).bind fun n _ => ih n

theorem quiet_nativeBodySize (source : List UInt8) (prototypes : List NativePrototypeDebug) :
    Quiet (nativeBodySize source prototypes) := by
  have hname : ∀ size name, Quiet (nameSize size name) := by
    intro size name
    refine (quiet_checkedAdd _ _).bind fun size _ => ?_
    cases name with
    | none => exact .ok size
    | some name =>
      exact (quiet_checkedU32 _).bind fun _ _ => (quiet_checkedAdd _ _).bind fun _ _ =>
        quiet_checkedAdd _ _
  have hlocal : ∀ size entry, Quiet (localSize size entry) := fun size entry =>
    (quiet_checkedU32 _).bind fun _ _ => (quiet_checkedAdd _ _).bind fun _ _ =>
      quiet_checkedAdd _ _
  have hprototype : ∀ size prototype, Quiet (prototypeSize size prototype) :=
    fun size prototype =>
    (quiet_checkedU32 _).bind fun _ _ => (quiet_checkedU32 _).bind fun _ _ =>
    (quiet_checkedU32 _).bind fun _ _ => (quiet_checkedAdd _ _).bind fun _ _ =>
    (quiet_checkedMul _ _).bind fun _ _ => (quiet_checkedAdd _ _).bind fun _ _ =>
    (quiet_foldlM hlocal _ _).bind fun _ _ => quiet_foldlM hname _ _
  exact (quiet_checkedU32 _).bind fun _ _ => (quiet_checkedU32 _).bind fun _ _ =>
    (quiet_checkedAdd _ _).bind fun _ _ => (quiet_checkedAdd _ _).bind fun _ _ =>
    quiet_foldlM hprototype _ _

theorem quiet_nativeDeclarationsSize (plan : OfficialExecutionPlan) (debug : Option NativeDebug) :
    Quiet (nativeDeclarationsSize plan debug) := by
  refine (Check.Errors.reject fun _ => by decide).bind fun _ _ => (quiet_checkedU32 _).bind
    fun _ _ => (quiet_checkedMul _ _).bind fun _ _ => (quiet_checkedAdd _ _).bind fun size _ => ?_
  cases debug with
  | none => exact .ok size
  | some debug =>
    exact (quiet_nativeBodySize _ _).bind fun _ _ => (quiet_checkedAdd _ _).bind fun _ _ =>
      quiet_checkedAdd _ _

theorem quiet_chargeWork (work : OfficialWorkBudget) (units : Nat) :
    Quiet (chargeWork work units) := by
  unfold chargeWork
  split
  · exact .error (by decide)
  · split
    · exact .error (by decide)
    · exact .ok _

theorem quiet_liftError {ε α : Type} {f : ε → TransportError} (h : ∀ e, ¬ OverAnnounced (f e))
    (x : Except ε α) : Quiet (liftError f x) := by
  cases x with
  | error e => exact .error (h e)
  | ok a => exact .ok a

/-- The programs that write are quiet. -/
abbrev QuietWrite (x : Write) : Prop := ∀ e, x = .error e → ¬ OverAnnounced e

theorem quietWrite_append {x y : Write} (hx : QuietWrite x) (hy : QuietWrite y) :
    QuietWrite (x ++ y) := by
  intro e he
  cases hfront : x with
  | error e' =>
    rw [hfront] at he
    cases he
    exact hx e hfront
  | ok front =>
    cases hback : y with
    | error e' =>
      rw [hfront, hback] at he
      cases he
      exact hy e hback
    | ok back =>
      rw [hfront, hback] at he
      cases he

theorem quietWrite_ok (bytes : List UInt8) : QuietWrite (.ok bytes) := by
  intro e he
  cases he

theorem quietWrite_each {α : Type} {write : α → Write} (h : ∀ a, QuietWrite (write a))
    (items : List α) : QuietWrite (Output.each write items) := by
  induction items with
  | nil => exact quietWrite_ok []
  | cons a items ih => exact quietWrite_append (h a) ih

theorem quietWrite_ofExcept {x : Except TransportError (List UInt8)} (h : Quiet x) :
    QuietWrite (.ofExcept x) :=
  fun e he => h e (Output.ofExcept_eq_error.mp he)

theorem quietWrite_writeCount (value : Nat) : QuietWrite (writeCount value) :=
  quietWrite_ofExcept ((quiet_checkedU32 value).bind fun _ _ => .ok _)

theorem quietWrite_writeNativeBody (source : List UInt8) (prototypes : List NativePrototypeDebug) :
    QuietWrite (writeNativeBody source prototypes) := by
  have hblob : ∀ bytes, QuietWrite (writeBlob bytes) := fun bytes =>
    quietWrite_append (quietWrite_writeCount _) (quietWrite_ok _)
  have hlocal : ∀ entry, QuietWrite (writeNativeLocal entry) := fun entry =>
    quietWrite_append (quietWrite_ok _) (hblob _)
  have hname : ∀ name, QuietWrite (writeNativeName name) := by
    intro name
    cases name with
    | none => exact quietWrite_ok _
    | some name => exact quietWrite_append (quietWrite_ok _) (hblob _)
  have hprototype : ∀ prototype, QuietWrite (writeNativePrototype prototype) := fun prototype =>
    quietWrite_append (quietWrite_ok _) <| quietWrite_append (quietWrite_writeCount _) <|
    quietWrite_append (quietWrite_each (fun _ => quietWrite_ok _) _) <|
    quietWrite_append (quietWrite_writeCount _) <|
    quietWrite_append (quietWrite_each hlocal _) <|
    quietWrite_append (quietWrite_writeCount _) (quietWrite_each hname _)
  exact quietWrite_append (hblob _) <| quietWrite_append (quietWrite_writeCount _) <|
    quietWrite_each hprototype _

theorem quietWrite_writeNativeDeclarations {signature : Except TransportError (List UInt8)}
    (hsignature : Quiet signature) (plan : OfficialExecutionPlan) (debug : Option NativeDebug) :
    QuietWrite (writeNativeDeclarations signature plan debug) := by
  have hcall : ∀ entry, QuietWrite (writeDeclaration entry) := by
    intro entry e he
    unfold writeDeclaration at he
    split at he
    · cases he
      decide
    · split at he
      · cases he
        decide
      · cases he
  have hdebug : QuietWrite (writeDeclarationDebug debug) := by
    cases debug with
    | none => exact quietWrite_ok _
    | some debug =>
      have hsize := (quiet_nativeBodySize debug.candidate.sourceName
        debug.candidate.prototypes).bind fun size _ => (quiet_checkedU32 size).bind fun size _ =>
          Check.Errors.ok (littleEndian 4 size)
      exact quietWrite_append (quietWrite_ok _) (quietWrite_append (quietWrite_ofExcept hsize)
        (quietWrite_writeNativeBody _ _))
  exact quietWrite_append (quietWrite_ofExcept hsignature) <| quietWrite_append (quietWrite_writeCount _) <|
    quietWrite_append (quietWrite_each hcall _) hdebug

theorem quiet_sha256 (bytes : List UInt8) : Quiet (sha256 bytes) := by
  unfold sha256
  split
  · exact .error (by decide)
  · exact .ok _

end Quiet

/-! ### The steps of the announcement -/

section Steps

variable {sizes : Official.Memory}

theorem quiet_transportKind (module : TransportModule sizes) : Quiet (transportKind module) := by
  have hstate : ¬ OverAnnounced (invalid 0 "私有 plan/artifact/native debug 狀態不一致") := by decide
  unfold transportKind
  split
  · exact .ok _
  · split
    · exact .ok _
    · exact .error hstate
  · exact .ok _
  · split
    · exact .ok _
    · exact .error hstate
  · exact .error hstate

theorem quiet_transportEncodeScanAdmission (module : TransportModule sizes)
    (limits : TransportLimits) : Quiet (transportEncodeScanAdmission module limits) := by
  have hattached : ∀ work allocated, Quiet (attachedWork work allocated) := by
    intro work allocated
    cases allocated with
    | none => exact .ok work
    | some allocated => exact (quiet_checkedMul _ _).bind fun _ _ => quiet_checkedAdd _ _
  have hplan : ∀ work plan, Quiet (planWork work plan) := by
    intro work plan
    cases plan with
    | none => exact .ok work
    | some plan => exact (Check.Errors.some? (by decide)).bind fun _ _ => hattached work _
  exact (quiet_checkedMul _ _).bind fun _ _ => (hattached _ _).bind fun _ _ =>
    (hattached _ _).bind fun _ _ => (hplan _ _).bind fun _ _ =>
    (quiet_checkedU64 _).bind fun work _ =>
    (Check.Errors.reject fun _ => by decide).bind fun _ _ => .ok work

theorem quiet_sidecarUpper (kind : SidecarKind sizes) : Quiet (sidecarUpper kind) := by
  cases kind with
  | empty => exact .ok _
  | official artifact =>
    exact (quiet_checkedMul _ _).bind fun _ _ => (quiet_checkedAdd _ _).bind fun _ _ =>
      quiet_checkedAdd _ _
  | native debug => exact (quiet_nativeBodySize _ _).bind fun _ _ => quiet_checkedAdd _ _
  | declarations plan debug =>
    exact (quiet_nativeDeclarationsSize _ _).bind fun _ _ => quiet_checkedAdd _ _

theorem quiet_sidecarWork (kind : SidecarKind sizes)
    (rvluUpper sidecarUpper instructions work : Nat) :
    Quiet (sidecarWork kind rvluUpper sidecarUpper instructions work) := by
  cases kind with
  | empty => exact .ok _
  | official artifact =>
    exact (quiet_checkedMul _ _).bind fun _ _ => (quiet_checkedMul _ _).bind fun _ _ =>
      quiet_checkedAdd _ _
  | native debug => exact (quiet_checkedMul _ _).bind fun _ _ => quiet_checkedAdd _ _
  | declarations plan debug =>
    exact (quiet_checkedMul _ _).bind fun _ _ => (quiet_checkedAdd _ _).bind fun _ _ =>
      (quiet_checkedMul _ _).bind fun _ _ => (quiet_checkedAdd _ _).bind fun _ _ =>
      (quiet_checkedMul _ _).bind fun _ _ => (quiet_checkedMul _ _).bind fun _ _ =>
      quiet_checkedAdd _ _

theorem quiet_addEach {α : Type} {amount : α → Except TransportError Nat}
    (h : ∀ a, Quiet (amount a)) (items : List α) (size : Nat) :
    Quiet (addEach amount items size) := by
  induction items generalizing size with
  | nil => exact .ok size
  | cons a items ih =>
    exact (h a).bind fun _ _ => (quiet_checkedAdd _ _).bind fun size _ => ih size

theorem quiet_bytecodeWireUpperBytes (module : BytecodeModule) :
    Quiet (bytecodeWireUpperBytes module) := by
  have hclose : ∀ close, Quiet (closeWireUpper close) := fun close =>
    (quiet_checkedMul _ _).bind fun _ _ => (quiet_checkedAdd _ _).bind fun _ _ =>
      (quiet_checkedMul _ _).bind fun _ _ => quiet_checkedAdd _ _
  have hconstant : ∀ constant, Quiet (constantWireUpper constant) := by
    intro constant
    cases constant with
    | integer | floatBits | boolean => exact .ok _
    | name bytes | string bytes => exact quiet_checkedAdd _ _
  have hprototype : ∀ prototype size, Quiet (prototypeWireUpper prototype size) :=
    fun prototype size =>
    (quiet_checkedAdd _ _).bind fun _ _ => (quiet_addEach hconstant _ _).bind fun _ _ =>
    (quiet_checkedMul _ _).bind fun _ _ => (quiet_checkedAdd _ _).bind fun _ _ =>
    (quiet_addEach hclose _ _).bind fun _ _ => (quiet_checkedMul _ _).bind fun _ _ =>
    (quiet_checkedAdd _ _).bind fun _ _ => (quiet_checkedMul _ _).bind fun _ _ =>
    (quiet_checkedAdd _ _).bind fun _ _ => quiet_addEach hclose _ _
  have hprototypes : ∀ prototypes size, Quiet (prototypesWireUpper prototypes size) := by
    intro prototypes
    induction prototypes with
    | nil => exact fun size => .ok size
    | cons prototype prototypes ih =>
      exact fun size => (hprototype prototype size).bind fun size _ => ih size
  exact hprototypes _ _

theorem quiet_preflightTransportEncode (module : TransportModule sizes)
    (limits : TransportLimits) : Quiet (preflightTransportEncode module limits) := by
  have hinstructions := quiet_foldlM (fun total (prototype : BytecodePrototype) =>
    quiet_checkedAdd total prototype.instructions.length) module.verified.module.prototypes 0
  have hbound : ∀ admission, Quiet (boundAdmission limits admission) := fun admission =>
    (Check.Errors.reject fun _ => by decide).bind fun _ _ => .ok admission
  exact (quiet_transportEncodeScanAdmission module limits).bind fun _ _ =>
    (quiet_transportKind module).bind fun kind _ =>
    (Check.Errors.reject fun _ => by decide).bind fun _ _ =>
    (quiet_bytecodeWireUpperBytes _).bind fun _ _ => (quiet_sidecarUpper kind).bind fun _ _ =>
    hinstructions.bind fun _ _ => (quiet_checkedMul _ _).bind fun _ _ =>
    (quiet_checkedMul _ _).bind fun _ _ => (quiet_checkedAdd _ _).bind fun _ _ =>
    (quiet_checkedMul _ _).bind fun _ _ => (quiet_checkedMul _ _).bind fun _ _ =>
    (quiet_checkedAdd _ _).bind fun _ _ => (quiet_sidecarWork kind _ _ _ _).bind fun _ _ =>
    (quiet_checkedMul _ _).bind fun _ _ => (quiet_checkedMul _ _).bind fun _ _ =>
    (quiet_checkedAdd _ _).bind fun _ _ => (quiet_checkedAdd _ _).bind fun _ _ =>
    (quiet_checkedU64 _).bind fun _ _ => (hbound _).bind fun result _ =>
    (Check.Errors.reject fun _ => by decide).bind fun _ _ => .ok result

/-- What an announcement says. -/
structure Announces (module : TransportModule sizes) (kind : SidecarKind sizes)
    (admission : TransportAdmission) : Prop where
  ofKind : transportKind module = .ok kind
  rvlu : bytecodeWireUpperBytes module.verified.module = .ok admission.rvluBytesUpper
  sidecar : sidecarUpper kind = .ok admission.sidecarBytesUpper
  temporary : admission.temporaryBytes
    = admission.rvluBytesUpper * 16 + admission.sidecarBytesUpper * 4
  retained : admission.retainedBytes = admission.rvluBytesUpper + admission.sidecarBytesUpper

theorem preflightTransportEncode_announces {module : TransportModule sizes}
    {limits : TransportLimits} {admission : TransportAdmission}
    (h : preflightTransportEncode module limits = .ok admission) :
    ∃ kind, Announces module kind admission := by
  obtain ⟨scan, -, h⟩ := Check.bind_eq_ok.mp h
  obtain ⟨kind, hkind, h⟩ := Check.bind_eq_ok.mp h
  obtain ⟨-, h⟩ := Check.then_eq_ok.mp h
  obtain ⟨rvluUpper, hrvlu, h⟩ := Check.bind_eq_ok.mp h
  obtain ⟨upper, hsidecar, h⟩ := Check.bind_eq_ok.mp h
  obtain ⟨instructions, -, h⟩ := Check.bind_eq_ok.mp h
  obtain ⟨rvluWork, -, h⟩ := Check.bind_eq_ok.mp h
  obtain ⟨scanWork, -, h⟩ := Check.bind_eq_ok.mp h
  obtain ⟨work, -, h⟩ := Check.bind_eq_ok.mp h
  obtain ⟨square, -, h⟩ := Check.bind_eq_ok.mp h
  obtain ⟨squareWork, -, h⟩ := Check.bind_eq_ok.mp h
  obtain ⟨work', -, h⟩ := Check.bind_eq_ok.mp h
  obtain ⟨work'', -, h⟩ := Check.bind_eq_ok.mp h
  obtain ⟨rvluTemporary, hrvluTemporary, h⟩ := Check.bind_eq_ok.mp h
  obtain ⟨sidecarTemporary, hsidecarTemporary, h⟩ := Check.bind_eq_ok.mp h
  obtain ⟨temporary, htemporary, h⟩ := Check.bind_eq_ok.mp h
  obtain ⟨retained, hretained, h⟩ := Check.bind_eq_ok.mp h
  obtain ⟨subsequent, -, h⟩ := Check.bind_eq_ok.mp h
  obtain ⟨result, hresult, h⟩ := Check.bind_eq_ok.mp h
  obtain ⟨-, h⟩ := Check.then_eq_ok.mp h
  obtain ⟨-, hresult⟩ := Check.then_eq_ok.mp hresult
  cases h
  cases hresult
  have hrvluTemporary := checkedMul_eq_ok hrvluTemporary
  have hsidecarTemporary := checkedMul_eq_ok hsidecarTemporary
  have htemporary := checkedAdd_eq_ok htemporary
  refine ⟨kind, hkind, hrvlu, hsidecar, ?_, checkedAdd_eq_ok hretained⟩
  show temporary = rvluUpper * 16 + upper * 4
  omega

end Steps

/-! ### The sidecar -/

section Sidecar

variable {sizes : Official.Memory} {memory : TransportMemory} {hash : List UInt8 → Nat}
  {limits : TransportLimits}

theorem quiet_officialBody (kind : SidecarKind sizes) (profile : LuaProfile) (work : Nat) :
    Quiet (officialBody memory hash kind profile limits work) := by
  have hchunk : ∀ e, ¬ OverAnnounced (ofOfficialChunkError e) := by
    intro e h
    revert h
    show ¬ ("官方 chunk 無效" = "RVLU 輸出超出預准入" ∨ "官方 chunk 無效" = "sidecar 輸出超出預准入"
      ∨ "官方 chunk 無效" = "transport 輸出實際容量超限")
    decide
  cases kind with
  | empty | native | declarations => exact .ok _
  | official artifact =>
    exact (Check.Errors.reject fun _ => by decide).bind fun _ _ =>
      (quiet_liftError hchunk _).bind fun out _ => .ok out.1

theorem quiet_sidecarLen (kind : SidecarKind sizes) (body : List UInt8) :
    Quiet (sidecarLen kind body) := by
  cases kind with
  | empty => exact .ok _
  | official artifact => exact quiet_checkedAdd _ _
  | native debug => exact (quiet_nativeBodySize _ _).bind fun _ _ => quiet_checkedAdd _ _
  | declarations plan debug =>
    exact (quiet_nativeDeclarationsSize _ _).bind fun _ _ => quiet_checkedAdd _ _

theorem quiet_sidecarBody (kind : SidecarKind sizes) (rvlu body : List UInt8) :
    Quiet (sidecarBody kind rvlu body) := by
  have hwrite : ∀ x : Write, QuietWrite x → Quiet x.toExcept := by
    intro x hx e he
    cases x with
    | ok bytes => cases he
    | error e' =>
      cases he
      exact hx e rfl
  cases kind with
  | empty | official => exact .ok _
  | native debug => exact hwrite _ (quietWrite_writeNativeBody _ _)
  | declarations plan debug =>
    exact hwrite _ (quietWrite_writeNativeDeclarations (quiet_sha256 rvlu) plan debug)

/-- The sidecar is not longer than announced. -/
theorem sidecarLen_le (hlayout : sizes.Layout) {kind : SidecarKind sizes} {profile : LuaProfile}
    {work upper length : Nat} {body : List UInt8}
    (hbody : officialBody memory hash kind profile limits work = .ok body)
    (hupper : sidecarUpper kind = .ok upper) (hlength : sidecarLen kind body = .ok length) :
    length ≤ upper := by
  cases kind with
  | empty =>
    cases hupper
    cases hlength
    exact Nat.le_refl _
  | official artifact =>
    obtain ⟨-, hbody⟩ := Check.then_eq_ok.mp hbody
    obtain ⟨⟨written, left⟩, hwritten, hbody⟩ := Check.bind_eq_ok.mp hbody
    cases hbody
    have hbytes : body.length
        ≤ 49 + artifact.chunk.main.total Official.OfficialPrototype.written := by
      unfold liftError at hwritten
      split at hwritten
      · next hencoded =>
        cases hwritten
        obtain ⟨⟨bytes, rest⟩, hinner, hencoded⟩ := Check.bind_eq_ok.mp hencoded
        cases hencoded
        exact Official.length_encodeOfficialChunkInner hinner
      · cases hwritten
    have htotal := Official.OfficialPrototype.total_written_le hlayout artifact.chunk.main
    have hcovers := artifact.covers
    obtain ⟨product, hproduct, hupper⟩ := Check.bind_eq_ok.mp hupper
    obtain ⟨sum, hsum, hupper⟩ := Check.bind_eq_ok.mp hupper
    have hproduct := checkedMul_eq_ok hproduct
    have hsum := checkedAdd_eq_ok hsum
    have hupper := checkedAdd_eq_ok hupper
    have hlength := checkedAdd_eq_ok hlength
    omega
  | native debug =>
    rw [Except.ok.inj ((hupper.symm.trans hlength : Except.ok upper = Except.ok length))]
  | declarations plan debug =>
    rw [Except.ok.inj ((hupper.symm.trans hlength : Except.ok upper = Except.ok length))]

/-- What is written is as long as was computed. -/
theorem length_sidecarBody {kind : SidecarKind sizes} {rvlu body back : List UInt8} {length : Nat}
    (hlength : sidecarLen kind body = .ok length) (hback : sidecarBody kind rvlu body = .ok back) :
    headerLen + back.length = length := by
  cases kind with
  | empty =>
    cases hlength
    cases hback
    rfl
  | official artifact =>
    cases hback
    exact (checkedAdd_eq_ok hlength).symm
  | native debug =>
    obtain ⟨size, hsize, hlength⟩ := Check.bind_eq_ok.mp hlength
    rw [length_writeNativeBody hsize (Output.toExcept_eq_ok.mp hback)]
    exact (checkedAdd_eq_ok hlength).symm
  | declarations plan debug =>
    obtain ⟨size, hsize, hlength⟩ := Check.bind_eq_ok.mp hlength
    rw [length_writeNativeDeclarations (fun _ => length_sha256) hsize
      (Output.toExcept_eq_ok.mp hback)]
    exact (checkedAdd_eq_ok hlength).symm

theorem length_writeHeader {tag : UInt8} {length : Nat} {header : List UInt8}
    (h : writeHeader tag length = .ok header) : header.length = headerLen := by
  obtain ⟨n, -, h⟩ := Check.bind_eq_ok.mp h
  cases h
  simp only [List.length_append, length_littleEndian]
  rfl

end Sidecar

/-! ### The run of the encoder -/

/-- An error that the announcement allows: it does not say that the output is longer than announced,
    nor, if no request gets more than it asks for, that it takes more room. -/
def Permitted (memory : TransportMemory) (e : TransportError) : Prop :=
  e.detail ≠ "RVLU 輸出超出預准入" ∧ e.detail ≠ "sidecar 輸出超出預准入"
    ∧ (memory.Exact → e.detail ≠ "transport 輸出實際容量超限")

theorem permitted_of_quiet {α : Type} {memory : TransportMemory} {x : Except TransportError α}
    (h : Quiet x) : Check.Errors (Permitted memory) x :=
  h.mono fun _ he => ⟨fun h => he (.inl h), fun h => he (.inr (.inl h)),
    fun _ h => he (.inr (.inr h))⟩

/-- The RVLU bytes under the announced bound. -/
theorem rvlu_within {sizes : Official.Memory} {memory : TransportMemory}
    {module : TransportModule sizes} {kind : SidecarKind sizes} {limits : TransportLimits}
    {admission : TransportAdmission} {bound : Nat} {rvlu : Buffer BytecodeError}
    (hannounces : Announces module kind admission)
    (hbound : checkedMul admission.rvluBytesUpper 2 = .ok bound)
    (hrvlu : liftError ofBytecodeError
      (encodeVerifiedModuleBytesBounded memory.rvlu module.verified limits.verify bound) = .ok rvlu) :
    rvlu.bytes.length ≤ admission.rvluBytesUpper ∧ rvlu.capacity ≤ admission.temporaryBytes
      ∧ (memory.rvlu.Exact → rvlu.capacity ≤ rvlu.bytes.length) := by
  have hmax : bound ≤ Bytecode.usizeMax := by
    unfold checkedMul at hbound
    split at hbound
    · cases hbound
    · next hle =>
      cases hbound
      exact Nat.le_of_not_lt hle
  have hbound := checkedMul_eq_ok hbound
  have htemporary := hannounces.temporary
  have hupper : admission.rvluBytesUpper ≤ bound := by omega
  obtain ⟨e, he, -⟩ | ⟨writer, hwriter, hbytes, hcapacity, hexact⟩ :=
    encodeBounded_within hannounces.rvlu hupper hmax
  · rw [he] at hrvlu
    cases hrvlu
  · rw [hwriter] at hrvlu
    cases hrvlu
    exact ⟨hbytes, by omega, hexact⟩

theorem quiet_allocateBytes (memory : TransportMemory) (size maximum : Nat) :
    Quiet (allocateBytes memory size maximum) :=
  (Check.Errors.reject fun _ => by decide).bind fun _ _ =>
    (Check.Errors.some? (by decide)).bind fun capacity _ =>
    (Check.Errors.reject fun _ => by decide).bind fun _ _ => .ok capacity

theorem allocateBytes_eq_ok {memory : TransportMemory} {size maximum capacity : Nat}
    (h : allocateBytes memory size maximum = .ok capacity) : memory.sidecar size = some capacity := by
  obtain ⟨-, h⟩ := Check.then_eq_ok.mp h
  obtain ⟨n, hn, h⟩ := Check.bind_eq_ok.mp h
  obtain ⟨-, h⟩ := Check.then_eq_ok.mp h
  cases h
  exact Check.some?_eq_ok.mp hn

/-- Sizes of the records as on a target with 64 bits. -/
def wordSizes : Official.Memory := ⟨32, 3, 240, 8, 32, 24, 24, fun _ => some 0⟩

/-- An allocator that gives what it is asked for. -/
def exactMemory : TransportMemory :=
  ⟨fun _ needed => some needed, ⟨wordSizes, 248, 40, fun _ => 0⟩, some, id⟩

/-- `TransportLimits::default`. -/
def TransportLimits.default : TransportLimits where
  verify := .default
  official := .default
  maxSidecarBytes := 32 * 1024 * 1024 + headerLen
  maxTemporaryBytes := 512 * 1024 * 1024
  maxRetainedBytes := 256 * 1024 * 1024
  maxWork := 2 ^ 64 - 1

/-- The empty chunk on its way. -/
def emptyTransport : TransportModule wordSizes := ⟨⟨emptyChunk, 4⟩, none, none, none⟩

end RivetLua.Bytecode.Transport
