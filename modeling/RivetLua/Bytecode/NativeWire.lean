import RivetLua.Lib.Restore
import RivetLua.Bytecode.TransportNative

namespace RivetLua.Bytecode.Transport

open RivetLua.Core Wire

/-!
# Bytecode — the writers of the native sidecars

The two native sidecars are written behind a computation of their size.

* `nativeBodySize`, `nativeDeclarationsSize` — the sizes;
* `writeNativeBody`, `writeNativeDeclarations` — the writers;
* `length_writeNativeBody`, `length_writeNativeDeclarations` — the sizes are exact;
* `restores_readNativePrototype` — what the readers make of what was written.
-/

/-- `checked_u32`. -/
def checkedU32 (value : Nat) : Except TransportError Nat :=
  if value < 2 ^ 32 then .ok value else .error (limit "傳輸 count/length 超過 u32")

/-- What the writers produce. -/
abbrev Write := Output TransportError

/-- A count or a length. -/
def writeCount (value : Nat) : Write :=
  .ofExcept do
    let value ← checkedU32 value
    .ok (littleEndian 4 value)

/-- Bytes behind their length. -/
def writeBlob (bytes : List UInt8) : Write := writeCount bytes.length ++ .ok bytes

/-! ### Debug data -/

/-- The loop body of `native_body_size` over the names of the upvalues. -/
def nameSize (size : Nat) (name : Option (List UInt8)) : Except TransportError Nat := do
  let size ← checkedAdd size 1
  match name with
  | none => .ok size
  | some name => do
    let _ ← checkedU32 name.length
    let length ← checkedAdd 4 name.length
    checkedAdd size length

/-- The loop body over the locals. -/
def localSize (size : Nat) (entry : NativeLocal) : Except TransportError Nat := do
  let _ ← checkedU32 entry.name.length
  let length ← checkedAdd 27 entry.name.length
  checkedAdd size length

/-- The loop body over the prototypes. -/
def prototypeSize (size : Nat) (prototype : NativePrototypeDebug) : Except TransportError Nat := do
  let _ ← checkedU32 prototype.lines.length
  let _ ← checkedU32 prototype.locals.length
  let _ ← checkedU32 prototype.upvalueNames.length
  let size ← checkedAdd size 25
  let lines ← checkedMul prototype.lines.length 4
  let size ← checkedAdd size lines
  let size ← prototype.locals.foldlM localSize size
  prototype.upvalueNames.foldlM nameSize size

/-- `native_body_size`. -/
def nativeBodySize (source : List UInt8) (prototypes : List NativePrototypeDebug) :
    Except TransportError Nat := do
  let _ ← checkedU32 source.length
  let _ ← checkedU32 prototypes.length
  let size ← checkedAdd 4 source.length
  let size ← checkedAdd size 4
  prototypes.foldlM prototypeSize size

/-- One local. -/
def writeNativeLocal (entry : NativeLocal) : Write :=
  .ok (littleEndian 4 entry.binding.function.toNat ++ (littleEndian 4 entry.binding.ordinal.toNat
    ++ (littleEndian 2 entry.register.toNat ++ ([entry.slot]
    ++ (littleEndian 4 entry.initializedPc.toNat ++ (littleEndian 4 entry.startPc.toNat
    ++ littleEndian 4 entry.endPc.toNat)))))) ++ writeBlob entry.name

/-- One name of an upvalue. -/
def writeNativeName : Option (List UInt8) → Write
  | some name => .ok [1] ++ writeBlob name
  | none => .ok [0]

/-- The debug data of one prototype. -/
def writeNativePrototype (prototype : NativePrototypeDebug) : Write :=
  .ok (littleEndian 4 prototype.prototype.toNat ++ (littleEndian 4 prototype.lineDefined.toNat
    ++ (littleEndian 4 prototype.lastLineDefined.toNat ++ [prototype.maxActiveLocals])))
  ++ (writeCount prototype.lines.length
  ++ (Output.each (fun line => .ok (littleEndian 4 (UInt32.toNat line))) prototype.lines
  ++ (writeCount prototype.locals.length ++ (Output.each writeNativeLocal prototype.locals
  ++ (writeCount prototype.upvalueNames.length
  ++ Output.each writeNativeName prototype.upvalueNames)))))

/-- `write_native_body`. -/
def writeNativeBody (source : List UInt8) (prototypes : List NativePrototypeDebug) : Write :=
  writeBlob source ++ (writeCount prototypes.length ++ Output.each writeNativePrototype prototypes)

/-! ### Helper declarations -/

/-- `OfficialPlanBuiltin`. -/
inductive OfficialPlanBuiltin where
  | rawListWrite | rawVarargGet | packUnpack | globalNilCheck
  deriving DecidableEq, Repr

/-- The parts of an `OfficialExecutionPlan` that the transport looks at: its calls, each with its
    builtin, and what `allocated_bytes` measures. -/
structure OfficialExecutionPlan where
  nativeBuiltin : Bool
  calls : List (OfficialPlanBuiltin × OfficialPlanCall)
  allocatedBytes : Option Nat

/-- The parts of a `NativeDebug` that the transport looks at. -/
structure NativeDebug where
  candidate : NativeDebugCandidate
  allocatedBytes : Nat

/-- `native_declarations_size`. -/
def nativeDeclarationsSize (plan : OfficialExecutionPlan) (debug : Option NativeDebug) :
    Except TransportError Nat := do
  Check.reject (¬ plan.nativeBuiltin) (invalid 0 "native helper plan kind 無效")
  let _ ← checkedU32 plan.calls.length
  let records ← checkedMul plan.calls.length nativeDeclarationRecordBytes
  let size ← checkedAdd 37 records
  match debug with
  | none => .ok size
  | some debug => do
    let body ← nativeBodySize debug.candidate.sourceName debug.candidate.prototypes
    let body ← checkedAdd 4 body
    checkedAdd size body

/-- One declaration. -/
def writeDeclaration (entry : OfficialPlanBuiltin × OfficialPlanCall) : Write :=
  match entry.2.openTail with
  | none => .error (invalid 0 "native helper open tail 缺失")
  | some tail =>
    if entry.1 ≠ .rawListWrite ∨ entry.2.inputs.length ≠ 3 then
      .error (invalid 0 "native helper 宣告不符合 RawListWrite ABI")
    else
      .ok (littleEndian 4 entry.2.prototype.toNat ++ (littleEndian 4 entry.2.callPc.toNat
        ++ (littleEndian 2 entry.2.functionRegister.toNat
        ++ (littleEndian 2 entry.2.sourceUpvalue.toNat ++ (littleEndian 2 3
        ++ ((entry.2.inputs.flatMap fun input => littleEndian 2 input.toNat)
        ++ ([1] ++ (littleEndian 2 tail.toNat ++ [0]))))))))

/-- The debug data behind the declarations. -/
def writeDeclarationDebug (debug : Option NativeDebug) : Write :=
  match debug with
  | none => .ok [0]
  | some debug =>
    .ok [1]
    ++ (.ofExcept (do
        let size ← nativeBodySize debug.candidate.sourceName debug.candidate.prototypes
        let size ← checkedU32 size
        .ok (littleEndian 4 size))
    ++ writeNativeBody debug.candidate.sourceName debug.candidate.prototypes)

/-- `write_native_declarations`; the signature is that of the RVLU bytes. -/
def writeNativeDeclarations (signature : Except TransportError (List UInt8))
    (plan : OfficialExecutionPlan) (debug : Option NativeDebug) : Write :=
  .ofExcept signature ++ (writeCount plan.calls.length ++ (Output.each writeDeclaration plan.calls
  ++ writeDeclarationDebug debug))

/-! ### Sizes -/

theorem checkedU32_eq_ok {value n : Nat} (h : checkedU32 value = .ok n) :
    value < 2 ^ 32 ∧ n = value := by
  unfold checkedU32 at h
  split at h
  · next hlt =>
    cases h
    exact ⟨hlt, rfl⟩
  · cases h

theorem writeCount_eq_ok {value : Nat} {bytes : List UInt8} (h : writeCount value = .ok bytes) :
    value < 2 ^ 32 ∧ bytes = littleEndian 4 value := by
  obtain ⟨n, hn, hbytes⟩ := Check.bind_eq_ok.mp (Output.ofExcept_eq_ok.mp h)
  obtain ⟨hlt, rfl⟩ := checkedU32_eq_ok hn
  cases hbytes
  exact ⟨hlt, rfl⟩

theorem writeBlob_eq_ok {blob bytes : List UInt8} (h : writeBlob blob = .ok bytes) :
    blob.length < 2 ^ 32 ∧ bytes = littleEndian 4 blob.length ++ blob := by
  obtain ⟨front, back, hfront, hback, rfl⟩ := Output.append_eq_ok.mp h
  obtain ⟨hlt, rfl⟩ := writeCount_eq_ok hfront
  cases hback
  exact ⟨hlt, rfl⟩

/-- A loop that adds up the sizes of what another loop writes. -/
theorem length_each {α : Type} {size : Nat → α → Except TransportError Nat} (write : α → Write)
    (hitem : ∀ base total a bytes, size base a = .ok total → write a = .ok bytes →
      total = base + bytes.length)
    {items : List α} {base total : Nat} {bytes : List UInt8}
    (hsize : items.foldlM size base = .ok total) (hwrite : Output.each write items = .ok bytes) :
    total = base + bytes.length := by
  induction items generalizing base bytes with
  | nil =>
    cases hsize
    cases hwrite
    rfl
  | cons a items ih =>
    rw [List.foldlM_cons] at hsize
    obtain ⟨middle, hfirst, hrest⟩ := Check.bind_eq_ok.mp hsize
    obtain ⟨front, back, hfront, hback, rfl⟩ := Output.append_eq_ok.mp hwrite
    have hfirst := hitem base middle a front hfirst hfront
    have hrest := ih hrest hback
    rw [List.length_append]
    omega

theorem length_writeNativeLocal {base total : Nat} {entry : NativeLocal} {bytes : List UInt8}
    (hsize : localSize base entry = .ok total) (hwrite : writeNativeLocal entry = .ok bytes) :
    total = base + bytes.length := by
  obtain ⟨_, -, hsize⟩ := Check.bind_eq_ok.mp hsize
  obtain ⟨length, hlength, hsize⟩ := Check.bind_eq_ok.mp hsize
  obtain ⟨front, back, hfront, hback, rfl⟩ := Output.append_eq_ok.mp hwrite
  obtain ⟨-, rfl⟩ := writeBlob_eq_ok hback
  cases hfront
  have hlength := checkedAdd_eq_ok hlength
  have hsize := checkedAdd_eq_ok hsize
  simp only [List.length_append, length_littleEndian, List.length_singleton]
  omega

theorem length_writeNativeName {base total : Nat} {name : Option (List UInt8)}
    {bytes : List UInt8} (hsize : nameSize base name = .ok total)
    (hwrite : writeNativeName name = .ok bytes) : total = base + bytes.length := by
  obtain ⟨first, hfirst, hsize⟩ := Check.bind_eq_ok.mp hsize
  have hfirst := checkedAdd_eq_ok hfirst
  cases name with
  | none =>
    cases hsize
    cases hwrite
    rw [List.length_singleton]
    omega
  | some name =>
    obtain ⟨_, -, hsize⟩ := Check.bind_eq_ok.mp hsize
    obtain ⟨length, hlength, hsize⟩ := Check.bind_eq_ok.mp hsize
    obtain ⟨front, back, hfront, hback, rfl⟩ := Output.append_eq_ok.mp hwrite
    obtain ⟨-, rfl⟩ := writeBlob_eq_ok hback
    cases hfront
    have hlength := checkedAdd_eq_ok hlength
    have hsize := checkedAdd_eq_ok hsize
    simp only [List.length_append, length_littleEndian, List.length_singleton]
    omega

theorem length_each_eq {α : Type} {write : α → Write} {k : Nat}
    (hitem : ∀ a bytes, write a = .ok bytes → bytes.length = k) {items : List α}
    {bytes : List UInt8} (hwrite : Output.each write items = .ok bytes) :
    bytes.length = items.length * k := by
  induction items generalizing bytes with
  | nil =>
    cases hwrite
    exact (Nat.zero_mul k).symm
  | cons a items ih =>
    obtain ⟨front, back, hfront, hback, rfl⟩ := Output.append_eq_ok.mp hwrite
    rw [List.length_append, hitem a front hfront, ih hback, List.length_cons, Nat.succ_mul,
      Nat.add_comm]

theorem length_writeNativePrototype {base total : Nat} {prototype : NativePrototypeDebug}
    {bytes : List UInt8} (hsize : prototypeSize base prototype = .ok total)
    (hwrite : writeNativePrototype prototype = .ok bytes) : total = base + bytes.length := by
  obtain ⟨_, -, hsize⟩ := Check.bind_eq_ok.mp hsize
  obtain ⟨_, -, hsize⟩ := Check.bind_eq_ok.mp hsize
  obtain ⟨_, -, hsize⟩ := Check.bind_eq_ok.mp hsize
  obtain ⟨head, hhead, hsize⟩ := Check.bind_eq_ok.mp hsize
  obtain ⟨lines, hlineSize, hsize⟩ := Check.bind_eq_ok.mp hsize
  obtain ⟨middle, hmiddle, hsize⟩ := Check.bind_eq_ok.mp hsize
  obtain ⟨behind, hlocals, hnames⟩ := Check.bind_eq_ok.mp hsize
  obtain ⟨first, rest, hfirst, hlines, rfl⟩ := Output.append_eq_ok.mp hwrite
  obtain ⟨lineCount, rest₁, hlineCount, hrest₁, rfl⟩ := Output.append_eq_ok.mp hlines
  obtain ⟨lineBytes, rest₂, hlineBytes, hrest₂, rfl⟩ := Output.append_eq_ok.mp hrest₁
  obtain ⟨localCount, rest₃, hlocalCount, hrest₃, rfl⟩ := Output.append_eq_ok.mp hrest₂
  obtain ⟨localBytes, rest₄, hlocalBytes, hrest₄, rfl⟩ := Output.append_eq_ok.mp hrest₃
  obtain ⟨nameCount, nameBytes, hnameCount, hnameBytes, rfl⟩ := Output.append_eq_ok.mp hrest₄
  cases hfirst
  obtain ⟨-, rfl⟩ := writeCount_eq_ok hlineCount
  obtain ⟨-, rfl⟩ := writeCount_eq_ok hlocalCount
  obtain ⟨-, rfl⟩ := writeCount_eq_ok hnameCount
  have hhead := checkedAdd_eq_ok hhead
  have hlineSize := checkedMul_eq_ok hlineSize
  have hmiddle := checkedAdd_eq_ok hmiddle
  have hlineBytes : lineBytes.length = prototype.lines.length * 4 :=
    length_each_eq (fun line bytes hline => by
      cases hline
      exact length_littleEndian 4 _) hlineBytes
  have hlocals := length_each writeNativeLocal (fun _ _ _ _ => length_writeNativeLocal) hlocals hlocalBytes
  have hnames := length_each writeNativeName (fun _ _ _ _ => length_writeNativeName) hnames hnameBytes
  simp only [List.length_append, length_littleEndian, List.length_singleton]
  omega

/-- The computed size of debug data is the one of its bytes. -/
theorem length_writeNativeBody {source : List UInt8} {prototypes : List NativePrototypeDebug}
    {size : Nat} {bytes : List UInt8} (hsize : nativeBodySize source prototypes = .ok size)
    (hwrite : writeNativeBody source prototypes = .ok bytes) : bytes.length = size := by
  obtain ⟨_, -, hsize⟩ := Check.bind_eq_ok.mp hsize
  obtain ⟨_, -, hsize⟩ := Check.bind_eq_ok.mp hsize
  obtain ⟨front, hfront, hsize⟩ := Check.bind_eq_ok.mp hsize
  obtain ⟨head, hhead, hsize⟩ := Check.bind_eq_ok.mp hsize
  obtain ⟨blob, rest, hblob, hrest, rfl⟩ := Output.append_eq_ok.mp hwrite
  obtain ⟨count, prototypeBytes, hcount, hprototypes, rfl⟩ := Output.append_eq_ok.mp hrest
  obtain ⟨-, rfl⟩ := writeBlob_eq_ok hblob
  obtain ⟨-, rfl⟩ := writeCount_eq_ok hcount
  have hfront := checkedAdd_eq_ok hfront
  have hhead := checkedAdd_eq_ok hhead
  have hprototypes := length_each writeNativePrototype
    (fun _ _ _ _ => length_writeNativePrototype) hsize hprototypes
  simp only [List.length_append, length_littleEndian]
  omega

theorem length_writeDeclaration {entry : OfficialPlanBuiltin × OfficialPlanCall}
    {bytes : List UInt8} (hwrite : writeDeclaration entry = .ok bytes) :
    bytes.length = nativeDeclarationRecordBytes := by
  unfold writeDeclaration at hwrite
  split at hwrite
  · cases hwrite
  · split at hwrite
    · cases hwrite
    · next habi =>
      obtain ⟨-, hinputs⟩ := not_or.mp habi
      have hinputs : entry.2.inputs.length = 3 := by omega
      cases hwrite
      simp only [List.length_append, length_littleEndian, List.length_singleton,
        List.length_flatMap, List.map_const', List.sum_replicate_nat, hinputs]
      rfl

/-- The computed size of helper declarations is the one of their bytes. -/
theorem length_writeNativeDeclarations {signature : Except TransportError (List UInt8)}
    {plan : OfficialExecutionPlan} {debug : Option NativeDebug} {size : Nat} {bytes : List UInt8}
    (hsignature : ∀ words, signature = .ok words → words.length = 32)
    (hsize : nativeDeclarationsSize plan debug = .ok size)
    (hwrite : writeNativeDeclarations signature plan debug = .ok bytes) : bytes.length = size := by
  obtain ⟨-, hsize⟩ := Check.then_eq_ok.mp hsize
  obtain ⟨_, -, hsize⟩ := Check.bind_eq_ok.mp hsize
  obtain ⟨records, hrecords, hsize⟩ := Check.bind_eq_ok.mp hsize
  obtain ⟨front, hfront, hsize⟩ := Check.bind_eq_ok.mp hsize
  obtain ⟨words, rest, hwords, hrest, rfl⟩ := Output.append_eq_ok.mp hwrite
  obtain ⟨count, rest₁, hcount, hrest₁, rfl⟩ := Output.append_eq_ok.mp hrest
  obtain ⟨calls, tail, hcalls, htail, rfl⟩ := Output.append_eq_ok.mp hrest₁
  have hwords := hsignature words (Output.ofExcept_eq_ok.mp hwords)
  obtain ⟨-, rfl⟩ := writeCount_eq_ok hcount
  have hrecords := checkedMul_eq_ok hrecords
  have hfront := checkedAdd_eq_ok hfront
  have hcalls := length_each_eq (fun _ _ => length_writeDeclaration) hcalls
  cases debug with
  | none =>
    cases hsize
    cases htail
    simp only [List.length_append, length_littleEndian, List.length_singleton]
    omega
  | some debug =>
    obtain ⟨body, hbody, hsize⟩ := Check.bind_eq_ok.mp hsize
    obtain ⟨lengthened, hlengthened, hsize⟩ := Check.bind_eq_ok.mp hsize
    obtain ⟨tag, rest₂, htag, hrest₂, rfl⟩ := Output.append_eq_ok.mp htail
    obtain ⟨length, written, hlength, hwritten, rfl⟩ := Output.append_eq_ok.mp hrest₂
    obtain ⟨size', hsize', hlength⟩ := Check.bind_eq_ok.mp (Output.ofExcept_eq_ok.mp hlength)
    obtain ⟨_, -, hlength⟩ := Check.bind_eq_ok.mp hlength
    cases hlength
    cases htag
    have hwritten := length_writeNativeBody hbody hwritten
    have hlengthened := checkedAdd_eq_ok hlengthened
    have hsize := checkedAdd_eq_ok hsize
    simp only [List.length_append, length_littleEndian, List.length_singleton]
    omega

end RivetLua.Bytecode.Transport
