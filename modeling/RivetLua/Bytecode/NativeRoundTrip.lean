import RivetLua.Bytecode.NativeWire
import RivetLua.Bytecode.Signature

namespace RivetLua.Bytecode.Transport

open RivetLua.Core Wire

/-!
# Bytecode — the native sidecars come back

The readers of the native sidecars check every count against the length of the body before they ask
the meter for room.  On what the writers have written no such check stops them: they return what was
written, or the meter fails.

* `Returns` — a reader that returns a value on given bytes, unless the meter fails;
* `returns_readNativePrototype` — the debug data of a prototype;
* `native_sidecars_roundTrip` — both sidecars.
-/

/-- On the bytes the reader returns a value with `Q`, unless the meter fails. -/
abbrev Returns {α : Type} (r : Scan α) (bytes : List UInt8) (Q : α → Prop) : Prop :=
  Restores id MeterError (fun _ => True) r bytes fun a _ => Q a

section Words

variable {α β : Type} {r : Scan α} {front back bytes : List UInt8} {Q : α → Prop} {R : β → Prop}

/-- The rule for sequencing. -/
theorem Returns.bind {k : α → Scan β} (hr : Returns r front Q)
    (hk : ∀ a, Q a → Returns (k a) back R) : Returns (r >>= k) (front ++ back) R := by
  refine Restores.bind hr fun a => ?_
  intro s tail hrest hQ
  exact hk a hQ s tail hrest trivial

/-- A reader behind which nothing is read. -/
theorem Returns.last {k : α → Scan β} (hr : Returns r bytes Q) (hk : ∀ a, Q a → Returns (k a) [] R) :
    Returns (r >>= k) bytes R := by
  have h := hr.bind hk
  rwa [List.append_nil] at h

/-- A step in front that reads nothing. -/
theorem Returns.next {k : α → Scan β} (hr : Returns r [] Q) (hk : ∀ a, Q a → Returns (k a) back R) :
    Returns (r >>= k) back R := hr.bind hk

theorem Returns.pure {a : α} (h : Q a) : Returns (pure a : Scan α) [] Q := Restores.pure fun _ _ => h

/-- A check that lets the reader through. -/
theorem Returns.unless {c : Prop} [Decidable c] {e : TransportError} (hc : ¬ c) {k : Scan β}
    (hk : Returns k bytes R) : Returns (reject c e >>= fun _ => k) bytes R := by
  have h := (Restores.reject (F := MeterError) (e := e) fun h => absurd h hc).bind
    fun _ => hk.conseq (fun s hs => hs.2) fun a t hQ => hQ
  exact h

theorem returns_take {n : Nat} (h : bytes.length = n) : Returns (take n) bytes (· = bytes) :=
  (Restores.take h fun _ _ _ _ => trivial).conseq (fun _ hs => hs) fun _ _ hQ => hQ.1

theorem returns_compute {x : Except TransportError α} (h : Metered x) :
    Returns (compute x) [] fun a => x = .ok a :=
  Restores.compute (fun _ _ hx _ => hx) h

theorem returns_u8 (value : UInt8) : Returns u8 [value] (· = value) := by
  refine (returns_take rfl).last fun bytes hbytes => .pure ?_
  subst hbytes
  show UInt8.ofNat (value.toNat + 256 * 0) = value
  simp

theorem returns_u16 (value : UInt16) : Returns u16 (littleEndian 2 value.toNat) (· = value) := by
  refine (returns_take (length_littleEndian 2 _)).last fun bytes hbytes => .pure ?_
  subst hbytes
  rw [ofLittleEndian_littleEndian (Nat.lt_of_lt_of_eq value.toNat_lt (by decide))]
  simp

theorem returns_count {n : Nat} (h : n < 2 ^ 32) :
    Returns u32 (littleEndian 4 n) fun count => count.toNat = n := by
  refine (returns_take (length_littleEndian 4 _)).last fun bytes hbytes => .pure ?_
  subst hbytes
  rw [ofLittleEndian_littleEndian (Nat.lt_of_lt_of_eq h (by decide)), UInt32.toNat_ofNat']
  exact Nat.mod_eq_of_lt h

theorem returns_u32 (value : UInt32) : Returns u32 (littleEndian 4 value.toNat) (· = value) :=
  (returns_count value.toNat_lt).conseq (fun _ hs => hs) fun _ _ h => UInt32.toNat.inj h

theorem returns_section {blob : List UInt8} (h : writeBlob blob = .ok bytes) :
    Returns «section» bytes (· = blob) := by
  obtain ⟨hlt, rfl⟩ := writeBlob_eq_ok h
  refine (returns_count hlt).bind fun size hsize => ?_
  exact returns_take hsize.symm

theorem returns_readCopy {blob : List UInt8} (backing : Backing) (meter : AllocationMeter)
    (h : writeBlob blob = .ok bytes) :
    Returns (readCopy backing meter) bytes fun out => out.1 = blob := by
  refine (returns_section h).last fun read hread => ?_
  refine (returns_compute (metered_reserve _ _ _ _)).last fun meter' _ => .pure ?_
  exact hread

/-- A loop that gathers what was written item by item, together with a meter. -/
theorem returns_gather {write : α → Write} {items : List α}
    {step : List α × AllocationMeter → Scan (List α × AllocationMeter)}
    (hstep : ∀ item piece, item ∈ items → write item = .ok piece → ∀ front meter,
      Returns (step (front, meter)) piece fun out => out.1 = front ++ [item])
    (hwrite : Output.each write items = .ok bytes) (meter : AllocationMeter) :
    Returns (iterate step items.length ([], meter)) bytes fun out => out.1 = items := by
  have hitem : ∀ front item piece, item ∈ items → write item = .ok piece →
      ∀ out : List α × AllocationMeter, out.1 = front →
      Restores id MeterError (fun _ => True) (step out) piece
        fun next _ => next.1 = front ++ [item] ∧ True := by
    intro front item piece hmem hpiece out hout
    obtain ⟨gathered, meter⟩ := out
    subst hout
    exact (hstep item piece hmem hpiece gathered meter).conseq (fun _ hs => hs)
      fun _ _ hQ => ⟨hQ, trivial⟩
  exact (Restores.iterate write (fun front out => out.1 = front) hitem hwrite rfl).conseq
    (fun _ hs => hs) fun out _ hQ => hQ.1

end Words

/-! ### Debug data -/

section Debug

variable {backing : Backing} {limits : VerifyLimits} {bytes : List UInt8}

theorem returns_readNativeLocal {entry : NativeLocal} (h : writeNativeLocal entry = .ok bytes)
    (front : List NativeLocal) (meter : AllocationMeter) :
    Returns (readNativeLocal backing (front, meter)) bytes fun out => out.1 = front ++ [entry] := by
  obtain ⟨head, blob, hhead, hblob, rfl⟩ := Output.append_eq_ok.mp h
  cases hhead
  simp only [List.append_assoc]
  refine (returns_u32 _).bind fun function hfunction => (returns_u32 _).bind fun ordinal hordinal =>
    (returns_u16 _).bind fun register hregister => (returns_u8 _).bind fun slot hslot =>
    (returns_u32 _).bind fun initialized hinitialized => (returns_u32 _).bind fun start hstart =>
    (returns_u32 _).bind fun stop hstop => (returns_readCopy backing meter hblob).last
    fun name hname => .pure ?_
  subst hfunction hordinal hregister hslot hinitialized hstart hstop
  rw [hname]

theorem returns_readNativeName {name : Option (List UInt8)} (h : writeNativeName name = .ok bytes)
    (front : List (Option (List UInt8))) (meter : AllocationMeter) :
    Returns (readNativeName backing (front, meter)) bytes fun out => out.1 = front ++ [name] := by
  cases name with
  | none =>
    cases h
    refine (returns_u8 0).last fun tag htag => ?_
    subst htag
    exact .pure rfl
  | some name =>
    obtain ⟨head, blob, hhead, hblob, rfl⟩ := Output.append_eq_ok.mp h
    cases hhead
    refine (returns_u8 1).bind fun tag htag => ?_
    subst htag
    refine (returns_readCopy backing meter hblob).last fun out hout => .pure ?_
    rw [hout]

/-- The writer of a line. -/
def writeNativeLine (line : UInt32) : Write := .ok (littleEndian 4 line.toNat)

theorem returns_readNativeLines {lines : List UInt32}
    (h : Output.each writeNativeLine lines = .ok bytes) :
    Returns (iterate readNativeLine lines.length []) bytes (· = lines) := by
  have hitem : ∀ front line piece, line ∈ lines → writeNativeLine line = .ok piece →
      ∀ read, read = front → Restores id MeterError (fun _ => True) (readNativeLine read) piece
        fun next _ => next = front ++ [line] ∧ True := by
    intro front line piece hmem hpiece read hread
    cases hpiece
    subst hread
    refine Restores.last (returns_u32 line) fun value => .pure fun _ hvalue => ⟨?_, trivial⟩
    rw [hvalue]
  exact (Restores.iterate writeNativeLine (fun front read => read = front) hitem h rfl).conseq
    (fun _ hs => hs) fun out _ hQ => hQ.1

theorem le_length_each {α : Type} {write : α → Write} {k : Nat}
    (hitem : ∀ a bytes, write a = .ok bytes → k ≤ bytes.length) {items : List α}
    {bytes : List UInt8} (hwrite : Output.each write items = .ok bytes) :
    items.length * k ≤ bytes.length := by
  induction items generalizing bytes with
  | nil =>
    rw [List.length_nil, Nat.zero_mul]
    exact Nat.zero_le _
  | cons a items ih =>
    obtain ⟨front, back, hfront, hback, rfl⟩ := Output.append_eq_ok.mp hwrite
    have hfirst := hitem a front hfront
    have hrest := ih hback
    rw [List.length_append, List.length_cons, Nat.succ_mul]
    omega

theorem le_length_writeNativeLocal {entry : NativeLocal} (h : writeNativeLocal entry = .ok bytes) :
    27 ≤ bytes.length := by
  obtain ⟨head, blob, hhead, hblob, rfl⟩ := Output.append_eq_ok.mp h
  obtain ⟨-, rfl⟩ := writeBlob_eq_ok hblob
  cases hhead
  simp only [List.length_append, length_littleEndian, List.length_singleton]
  omega

theorem le_length_writeNativeName {name : Option (List UInt8)}
    (h : writeNativeName name = .ok bytes) : 1 ≤ bytes.length := by
  cases name with
  | none =>
    cases h
    exact Nat.le_refl 1
  | some name =>
    obtain ⟨head, blob, hhead, -, rfl⟩ := Output.append_eq_ok.mp h
    cases hhead
    rw [List.length_append, List.length_singleton]
    omega

/-- The counts of a prototype are within the limits of the reader. -/
structure NativePrototypeDebug.Fits (limits : VerifyLimits) (prototype : NativePrototypeDebug) :
    Prop where
  lines : prototype.lines.length ≤ limits.maxInstructions
  locals : prototype.locals.length ≤ limits.maxConstants
  names : prototype.upvalueNames.length ≤ limits.maxUpvaluesPerPrototype

/-- What the writer of a prototype has written, piece by piece. -/
structure PrototypePieces (prototype : NativePrototypeDebug) where
  lines : List UInt8
  locals : List UInt8
  names : List UInt8
  lines_ok : Output.each writeNativeLine prototype.lines = .ok lines
  locals_ok : Output.each writeNativeLocal prototype.locals = .ok locals
  names_ok : Output.each writeNativeName prototype.upvalueNames = .ok names
  lines_short : prototype.lines.length < 2 ^ 32
  locals_short : prototype.locals.length < 2 ^ 32
  names_short : prototype.upvalueNames.length < 2 ^ 32

/-- The bytes of a prototype out of its pieces. -/
def PrototypePieces.joined {prototype : NativePrototypeDebug} (pieces : PrototypePieces prototype) :
    List UInt8 :=
  littleEndian 4 prototype.prototype.toNat ++ (littleEndian 4 prototype.lineDefined.toNat
    ++ (littleEndian 4 prototype.lastLineDefined.toNat ++ ([prototype.maxActiveLocals]
    ++ (littleEndian 4 prototype.lines.length ++ (pieces.lines
    ++ (littleEndian 4 prototype.locals.length ++ (pieces.locals
    ++ (littleEndian 4 prototype.upvalueNames.length ++ pieces.names))))))))

theorem writeNativePrototype_eq_ok {prototype : NativePrototypeDebug}
    (h : writeNativePrototype prototype = .ok bytes) :
    ∃ pieces : PrototypePieces prototype, bytes = pieces.joined := by
  obtain ⟨first, rest, hfirst, hrest, rfl⟩ := Output.append_eq_ok.mp h
  obtain ⟨lineCount, rest₁, hlineCount, hrest₁, rfl⟩ := Output.append_eq_ok.mp hrest
  obtain ⟨lines, rest₂, hlines, hrest₂, rfl⟩ := Output.append_eq_ok.mp hrest₁
  obtain ⟨localCount, rest₃, hlocalCount, hrest₃, rfl⟩ := Output.append_eq_ok.mp hrest₂
  obtain ⟨locals, rest₄, hlocals, hrest₄, rfl⟩ := Output.append_eq_ok.mp hrest₃
  obtain ⟨nameCount, names, hnameCount, hnames, rfl⟩ := Output.append_eq_ok.mp hrest₄
  obtain ⟨hlinesShort, rfl⟩ := writeCount_eq_ok hlineCount
  obtain ⟨hlocalsShort, rfl⟩ := writeCount_eq_ok hlocalCount
  obtain ⟨hnamesShort, rfl⟩ := writeCount_eq_ok hnameCount
  cases hfirst
  refine ⟨⟨lines, locals, names, hlines, hlocals, hnames, hlinesShort, hlocalsShort,
    hnamesShort⟩, ?_⟩
  simp only [PrototypePieces.joined, List.append_assoc]

theorem PrototypePieces.le_length {prototype : NativePrototypeDebug}
    (pieces : PrototypePieces prototype) :
    25 + prototype.lines.length * 4 + prototype.locals.length * 27 + prototype.upvalueNames.length
      ≤ pieces.joined.length := by
  have hlines := length_each_eq (fun line bytes hline => by
    cases hline
    exact length_littleEndian 4 _) pieces.lines_ok
  have hlocals := le_length_each (fun _ _ => le_length_writeNativeLocal) pieces.locals_ok
  have hnames := le_length_each (fun _ _ => le_length_writeNativeName) pieces.names_ok
  simp only [PrototypePieces.joined, List.length_append, length_littleEndian, List.length_singleton]
  omega

theorem returns_readNativePrototype {prototype : NativePrototypeDebug} {bodyLength : Nat}
    (h : writeNativePrototype prototype = .ok bytes) (hfits : prototype.Fits limits)
    (hbody : bytes.length ≤ bodyLength) (front : List NativePrototypeDebug)
    (meter : AllocationMeter) :
    Returns (readNativePrototype backing limits bodyLength (front, meter)) bytes
      fun out => out.1 = front ++ [prototype] := by
  obtain ⟨pieces, rfl⟩ := writeNativePrototype_eq_ok h
  have hlength := pieces.le_length
  have hreserve := fun meter size count => returns_compute (metered_reserve backing meter size count)
  have hlineCount : ¬ (limits.maxInstructions < prototype.lines.length
      ∨ bodyLength / 4 < prototype.lines.length) := by
    have := hfits.lines
    omega
  have hlocalCount : ¬ (limits.maxConstants < prototype.locals.length
      ∨ bodyLength / 27 < prototype.locals.length) := by
    have := hfits.locals
    omega
  have hnameCount : ¬ (limits.maxUpvaluesPerPrototype < prototype.upvalueNames.length
      ∨ bodyLength < prototype.upvalueNames.length) := by
    have := hfits.names
    omega
  refine (returns_u32 _).bind fun id hid => (returns_u32 _).bind fun first hfirst =>
    (returns_u32 _).bind fun last hlast => (returns_u8 _).bind fun active hactive =>
    (returns_count pieces.lines_short).bind fun lineCount hlines => ?_
  subst hid hfirst hlast hactive
  rw [← hlines] at hlineCount
  refine .unless hlineCount ((hreserve meter 4 _).next fun meter₁ _ => ?_)
  rw [hlines]
  refine (returns_readNativeLines pieces.lines_ok).bind fun lines hread => ?_
  refine (returns_count pieces.locals_short).bind fun localCount hlocals => ?_
  rw [← hlocals] at hlocalCount
  refine .unless hlocalCount ((hreserve meter₁ _ _).next fun meter₂ _ => ?_)
  rw [hlocals]
  refine (returns_gather (fun entry piece _ hpiece front meter =>
    returns_readNativeLocal hpiece front meter) pieces.locals_ok meter₂).bind
    fun locals hlocalsRead => ?_
  refine (returns_count pieces.names_short).bind fun nameCount hnames => ?_
  rw [← hnames] at hnameCount
  refine .unless hnameCount ((hreserve locals.2 _ _).next fun meter₃ _ => ?_)
  rw [hnames]
  refine (returns_gather (fun name piece _ hpiece front meter =>
    returns_readNativeName hpiece front meter) pieces.names_ok meter₃).last
    fun names hnamesRead => .pure ?_
  show front ++ [_] = front ++ [prototype]
  rw [hread, hlocalsRead, hnamesRead]

/-- The counts of debug data are within the limits of the reader. -/
structure NativeDebugCandidate.Fits (limits : VerifyLimits) (debug : NativeDebugCandidate) :
    Prop where
  prototypes : debug.prototypes.length ≤ limits.maxPrototypes
  each : ∀ prototype ∈ debug.prototypes, prototype.Fits limits

/-- The outcome of a reader that has to use up its bytes. -/
theorem Returns.outcome {α : Type} {x : Except TransportError α} {r : Scan α} {Q : α → Prop}
    (hx : x = runSection r bytes) (h : Returns r bytes Q) :
    (∃ a, x = .ok a ∧ Q a) ∨ ∃ e, x = .error e ∧ MeterError e := by
  subst hx
  have hr := h ⟨bytes, 0⟩ [] (List.append_nil bytes).symm trivial
  cases hrun : r ⟨bytes, 0⟩ with
  | error e =>
    rw [hrun] at hr
    refine .inr ⟨e, ?_, hr⟩
    have hbind : ∀ k : α → Scan α, (r >>= k) ⟨bytes, 0⟩ = .error e := by
      intro k
      show Except.bind (r ⟨bytes, 0⟩) _ = .error e
      rw [hrun]
      rfl
    unfold runSection runAt
    rw [hbind]
  | ok out =>
    obtain ⟨a, t⟩ := out
    rw [hrun] at hr
    have hinput : t = ⟨[], 0 + bytes.length⟩ := hr.1
    exact .inl ⟨a, runAt_finished_eq_ok.mpr ⟨t, hrun, by rw [hinput]⟩, hr.2⟩

theorem returns_prototypes {debug : NativeDebugCandidate} {bodyLength : Nat}
    (h : Output.each writeNativePrototype debug.prototypes = .ok bytes) (hfits : debug.Fits limits)
    (hbody : bytes.length ≤ bodyLength) (meter : AllocationMeter) :
    Returns (iterate (readNativePrototype backing limits bodyLength) debug.prototypes.length
      ([], meter)) bytes fun out => out.1 = debug.prototypes := by
  -- a piece of the bytes is not longer than all of them
  have hpiece : ∀ {items : List NativePrototypeDebug} {bytes piece : List UInt8}
      {item : NativePrototypeDebug}, Output.each writeNativePrototype items = .ok bytes →
      item ∈ items → writeNativePrototype item = .ok piece → piece.length ≤ bytes.length := by
    intro items
    induction items with
    | nil => exact fun _ hmem => absurd hmem List.not_mem_nil
    | cons first items ih =>
      intro bytes piece item hwrite hmem hitem
      obtain ⟨front, back, hfront, hback, rfl⟩ := Output.append_eq_ok.mp hwrite
      rw [List.length_append]
      rcases List.mem_cons.mp hmem with rfl | hmem
      · cases hfront.symm.trans hitem
        exact Nat.le_add_right _ _
      · exact Nat.le_trans (ih hback hmem hitem) (Nat.le_add_left _ _)
  exact returns_gather (fun prototype piece hmem hprototype front meter =>
    returns_readNativePrototype hprototype (hfits.each prototype hmem)
      (Nat.le_trans (hpiece h hmem hprototype) hbody) front meter) h meter

/-- The debug data comes back, unless the meter fails. -/
theorem readNativeBody_writeNativeBody {debug : NativeDebugCandidate} (hfits : debug.Fits limits)
    (h : writeNativeBody debug.sourceName debug.prototypes = .ok bytes) (meter : AllocationMeter) :
    (∃ meter', readNativeBody backing bytes limits meter = .ok (debug, meter')) ∨
      ∃ e, readNativeBody backing bytes limits meter = .error e ∧ MeterError e := by
  obtain ⟨blob, rest, hblob, hrest, rfl⟩ := Output.append_eq_ok.mp h
  obtain ⟨count, prototypes, hcount, hprototypes, rfl⟩ := Output.append_eq_ok.mp hrest
  obtain ⟨hshort, rfl⟩ := writeCount_eq_ok hcount
  have hlength : debug.prototypes.length * 25 ≤ prototypes.length :=
    le_length_each (fun prototype piece hpiece => by
      obtain ⟨pieces, rfl⟩ := writeNativePrototype_eq_ok hpiece
      have := pieces.le_length
      omega) hprototypes
  have hcountFits : ¬ (limits.maxPrototypes < debug.prototypes.length
      ∨ (blob ++ (littleEndian 4 debug.prototypes.length ++ prototypes)).length / 25
        < debug.prototypes.length) := by
    have := hfits.prototypes
    simp only [List.length_append, length_littleEndian]
    omega
  have hrun : readNativeBody backing (blob ++ (littleEndian 4 debug.prototypes.length ++ prototypes))
      limits meter = runSection _ (blob ++ (littleEndian 4 debug.prototypes.length ++ prototypes)) :=
    rfl
  refine (Returns.outcome (Q := fun out => out.1 = debug) hrun ?_).imp_left ?_
  · refine (returns_readCopy backing meter hblob).bind fun source hsource =>
      (returns_count hshort).bind fun total htotal => ?_
    refine .unless (by rw [htotal]; exact hcountFits) ((returns_compute (metered_reserve backing source.2 _ _)).next
      fun meter' _ => ?_)
    rw [htotal]
    refine (returns_prototypes hprototypes hfits ?_ meter').last fun read hread => .pure ?_
    · simp only [List.length_append, length_littleEndian]
      omega
    · show NativeDebugCandidate.mk _ _ = debug
      rw [hsource, hread]
  · rintro ⟨⟨read, meter'⟩, hout, hdebug⟩
    obtain rfl : read = debug := hdebug
    exact ⟨meter', hout⟩

end Debug

/-! ### Helper declarations -/

section Declarations

variable {backing : Backing} {limits : VerifyLimits} {bytes : List UInt8}

theorem returns_rejectHere {c : Prop} [Decidable c] {detail : String} (hc : ¬ c) :
    Returns (rejectHere c detail) [] fun _ => True :=
  Restores.location fun _ => (Restores.reject fun h => absurd h hc).conseq (fun _ hs => hs)
    fun _ _ _ => trivial

theorem returns_readDeclaration {entry : OfficialPlanBuiltin × OfficialPlanCall}
    (h : writeDeclaration entry = .ok bytes) (front : List OfficialPlanCall)
    (meter : AllocationMeter) :
    Returns (readDeclaration backing (front, meter)) bytes
      fun out => out.1 = front ++ [entry.2] := by
  obtain ⟨builtin, prototype, callPc, functionRegister, sourceUpvalue, inputs, openTail⟩ := entry
  unfold writeDeclaration at h
  dsimp only at h
  cases openTail with
  | none => cases h
  | some tail =>
    dsimp only at h
    by_cases habi : builtin ≠ .rawListWrite ∨ inputs.length ≠ 3
    · rw [if_pos habi] at h
      cases h
    · rw [if_neg habi] at h
      obtain ⟨-, hinputs⟩ := not_or.mp habi
      obtain ⟨first, second, third, rfl⟩ := List.length_eq_three.mp (of_not_not hinputs)
      cases h
      simp only [List.flatMap_cons, List.flatMap_nil, List.append_nil, List.append_assoc]
      refine (returns_u32 _).bind fun prototype' hprototype => (returns_u32 _).bind
        fun callPc' hcallPc => (returns_u16 _).bind fun function' hfunction =>
        (returns_u16 _).bind fun upvalue' hupvalue => (returns_u16 3).bind fun count hcount => ?_
      refine (returns_rejectHere (not_not.mpr hcount)).next fun _ _ => ?_
      refine (returns_compute (metered_reserve backing meter 2 3)).next fun meter' _ => ?_
      refine (returns_u16 _).bind fun first' hfirst => (returns_u16 _).bind
        fun second' hsecond => (returns_u16 _).bind fun third' hthird =>
        (returns_u8 1).bind fun present hpresent => ?_
      refine (returns_rejectHere (not_not.mpr hpresent)).next fun _ _ => ?_
      refine (returns_u16 _).bind fun tail' htail => (returns_u8 0).last fun last hlast => ?_
      refine (returns_rejectHere (not_not.mpr hlast)).next fun _ _ => .pure ?_
      subst hprototype hcallPc hfunction hupvalue hfirst hsecond hthird htail
      rfl

theorem returns_declarations {calls : List (OfficialPlanBuiltin × OfficialPlanCall)}
    (h : Output.each writeDeclaration calls = .ok bytes) (meter : AllocationMeter) :
    Returns (iterate (readDeclaration backing) calls.length ([], meter)) bytes
      fun out => out.1 = calls.map Prod.snd := by
  have hitem : ∀ front entry piece, entry ∈ calls → writeDeclaration entry = .ok piece →
      ∀ out : List OfficialPlanCall × AllocationMeter, out.1 = front.map Prod.snd →
      Restores id MeterError (fun _ => True) (readDeclaration backing out) piece
        fun next _ => next.1 = (front ++ [entry]).map Prod.snd ∧ True := by
    intro front entry piece hmem hpiece out hout
    obtain ⟨gathered, meter⟩ := out
    subst hout
    refine (returns_readDeclaration hpiece (front.map Prod.snd) meter).conseq (fun _ hs => hs)
      fun _ _ hQ => ⟨?_, trivial⟩
    rw [hQ, List.map_append]
    rfl
  have hgathered := Restores.iterate writeDeclaration
    (fun front (out : List OfficialPlanCall × AllocationMeter) => out.1 = front.map Prod.snd) hitem h
    (show ([], meter).1 = [].map Prod.snd from rfl)
  exact hgathered.conseq (fun _ hs => hs) fun out _ hQ => hQ.1

theorem returns_readDeclarationDebug {debug : Option NativeDebug}
    (hfits : ∀ data ∈ debug, data.candidate.Fits limits)
    (h : writeDeclarationDebug debug = .ok bytes) (meter : AllocationMeter) :
    Returns (readDeclarationDebug backing limits meter) bytes
      fun out => out.1 = debug.map NativeDebug.candidate := by
  cases debug with
  | none =>
    cases h
    refine (returns_u8 0).last fun tag htag => ?_
    subst htag
    exact .pure rfl
  | some data =>
    obtain ⟨tag, rest, htag, hrest, rfl⟩ := Output.append_eq_ok.mp h
    obtain ⟨length, body, hlength, hbody, rfl⟩ := Output.append_eq_ok.mp hrest
    obtain ⟨size, hsize, hcounted⟩ := Check.bind_eq_ok.mp (Output.ofExcept_eq_ok.mp hlength)
    obtain ⟨size', hsize', hbytes⟩ := Check.bind_eq_ok.mp hcounted
    obtain ⟨hshort, rfl⟩ := checkedU32_eq_ok hsize'
    cases htag
    cases hbytes
    have hexact := length_writeNativeBody hsize hbody
    subst hexact
    refine (returns_u8 1).bind fun tag htag => ?_
    subst htag
    have hblob : writeBlob body = .ok (littleEndian 4 body.length ++ body) := by
      simp only [writeBlob, writeCount, checkedU32, if_pos hshort]
      rfl
    refine (returns_section hblob).last fun read hread => ?_
    subst hread
    have hread : (∃ meter', readNativeBody backing read limits meter = .ok (data.candidate, meter'))
        ∨ ∃ e, readNativeBody backing read limits meter = .error e ∧ MeterError e :=
      readNativeBody_writeNativeBody (hfits data rfl) hbody meter
    rcases hread with ⟨meter', hread⟩ | ⟨e, he, hmeter⟩
    · rw [hread]
      exact (returns_compute (x := .ok (data.candidate, meter')) nofun).last
        fun out hout => .pure (by cases hout; rfl)
    · rw [he]
      exact (returns_compute (x := .error e) fun e' he' => by cases he'; exact hmeter).last
        fun out hout => by cases hout

/-- The helper declarations come back, unless the meter fails. -/
theorem readNativeDeclarations_writeNativeDeclarations {signature : List UInt8}
    (hsignature : signature.length = 32) {plan : OfficialExecutionPlan} {debug : Option NativeDebug}
    (hcalls : 0 < plan.calls.length) (hlimit : plan.calls.length ≤ limits.maxInstructions)
    (hfits : ∀ data ∈ debug, data.candidate.Fits limits)
    (h : writeNativeDeclarations (.ok signature) plan debug = .ok bytes)
    (meter : AllocationMeter) :
    (∃ meter', readNativeDeclarations backing bytes limits meter
        = .ok ((plan.calls.map Prod.snd, debug.map NativeDebug.candidate), meter')) ∨
      ∃ e, readNativeDeclarations backing bytes limits meter = .error e ∧ MeterError e := by
  obtain ⟨words, rest, hwords, hrest, rfl⟩ := Output.append_eq_ok.mp h
  obtain ⟨count, rest₁, hcount, hrest₁, rfl⟩ := Output.append_eq_ok.mp hrest
  obtain ⟨calls, tail, hcallBytes, htail, rfl⟩ := Output.append_eq_ok.mp hrest₁
  cases hwords
  obtain ⟨hshort, rfl⟩ := writeCount_eq_ok hcount
  have hlength := length_each_eq (fun _ _ => length_writeDeclaration) hcallBytes
  have hcountFits : ¬ (plan.calls.length = 0 ∨ limits.maxInstructions < plan.calls.length
      ∨ (signature ++ (littleEndian 4 plan.calls.length ++ (calls ++ tail))).length
        / nativeDeclarationRecordBytes < plan.calls.length) := by
    simp only [List.length_append, length_littleEndian, hsignature, hlength,
      nativeDeclarationRecordBytes]
    omega
  have hrun : readNativeDeclarations backing
      (signature ++ (littleEndian 4 plan.calls.length ++ (calls ++ tail))) limits meter
        = runSection _ (signature ++ (littleEndian 4 plan.calls.length ++ (calls ++ tail))) := rfl
  refine (Returns.outcome
    (Q := fun out => out.1 = (plan.calls.map Prod.snd, debug.map NativeDebug.candidate))
    hrun ?_).imp_left ?_
  · have hskip : Returns (skip 32) signature fun _ => True :=
      (returns_take hsignature).last fun _ _ => .pure trivial
    refine hskip.bind fun _ _ =>
      (returns_count hshort).bind fun total htotal => ?_
    refine .unless (by rw [htotal]; exact hcountFits) ((returns_compute (metered_reserve backing meter _ _)).next
      fun meter' _ => ?_)
    rw [htotal]
    refine (returns_declarations hcallBytes meter').bind fun read hread => ?_
    refine (returns_readDeclarationDebug hfits htail read.2).last fun data hdata => .pure ?_
    show (read.1, data.1) = _
    rw [hread, hdata]
  · rintro ⟨⟨read, meter'⟩, hout, hdata⟩
    obtain rfl : read = _ := hdata
    exact ⟨meter', hout⟩

end Declarations

/-! ### Both sidecars -/

/-- **The native sidecars come back.**  The computed sizes are those of the bytes; the declarations
    start with the signature of the RVLU bytes; and the readers return the data that was written,
    unless the meter fails. -/
theorem native_sidecars_roundTrip (backing : Backing) (limits : VerifyLimits)
    (meter : AllocationMeter) (rvlu : List UInt8) (plan : OfficialExecutionPlan)
    (debug : Option NativeDebug) (hcalls : 0 < plan.calls.length)
    (hlimit : plan.calls.length ≤ limits.maxInstructions)
    (hfits : ∀ data ∈ debug, data.candidate.Fits limits) :
    (∀ data ∈ debug, ∀ size body,
      nativeBodySize data.candidate.sourceName data.candidate.prototypes = .ok size →
      writeNativeBody data.candidate.sourceName data.candidate.prototypes = .ok body →
      body.length = size
        ∧ ((∃ meter', readNativeBody backing body limits meter = .ok (data.candidate, meter'))
          ∨ ∃ e, readNativeBody backing body limits meter = .error e ∧ MeterError e))
    ∧ ∀ size body, nativeDeclarationsSize plan debug = .ok size →
      writeNativeDeclarations (sha256 rvlu) plan debug = .ok body →
      body.length = size ∧ sha256 rvlu = .ok (body.take 32)
        ∧ ((∃ meter', readNativeDeclarations backing body limits meter
            = .ok ((plan.calls.map Prod.snd, debug.map NativeDebug.candidate), meter'))
          ∨ ∃ e, readNativeDeclarations backing body limits meter = .error e ∧ MeterError e) := by
  constructor
  · intro data hdata size body hsize hbody
    exact ⟨length_writeNativeBody hsize hbody,
      readNativeBody_writeNativeBody (hfits data hdata) hbody meter⟩
  · intro size body hsize hbody
    have hlength := length_writeNativeDeclarations (fun _ => length_sha256) hsize hbody
    obtain ⟨words, rest, hwords, -, hjoined⟩ := Output.append_eq_ok.mp hbody
    have hsigned := Output.ofExcept_eq_ok.mp hwords
    have hshort := length_sha256 hsigned
    refine ⟨hlength, ?_, ?_⟩
    · rw [hsigned, hjoined, ← hshort, List.take_left]
    · rw [hsigned] at hbody
      exact readNativeDeclarations_writeNativeDeclarations hshort hcalls hlimit hfits hbody meter

/-- A declaration, and the debug data of a chunk with a local. -/
def oneCall : OfficialExecutionPlan :=
  ⟨true, [(.rawListWrite, ⟨0, 6, 2, 0, [3, 4, 5], some 6⟩)], some 72⟩

@[inherit_doc oneCall]
def oneLocal : NativeDebug :=
  ⟨⟨[120], [⟨0, 0, 0, [1, 1], [⟨⟨0, 0⟩, 1, 0, 0, 0, 2, [97]⟩], [some [95], none], 1⟩]⟩, 100⟩

theorem native_sidecars_roundTrip_oneLocal :
    ∃ body meter', writeNativeBody oneLocal.candidate.sourceName oneLocal.candidate.prototypes
        = .ok body
      ∧ readNativeBody ⟨40, 96, 48, 24, some⟩ body .default ⟨0, 4096, 0⟩
        = .ok (oneLocal.candidate, meter') := by
  have hfits : ∀ data ∈ some oneLocal, data.candidate.Fits .default := by
    rintro data ⟨⟩
    refine ⟨by decide, fun prototype hmem => ?_⟩
    obtain rfl := List.mem_singleton.mp hmem
    exact ⟨by decide, by decide, by decide⟩
  have hreads := native_sidecars_roundTrip ⟨40, 96, 48, 24, some⟩ .default ⟨0, 4096, 0⟩ [] oneCall
    (some oneLocal) (by decide) (by decide) hfits
  have hsize : nativeBodySize oneLocal.candidate.sourceName oneLocal.candidate.prototypes
      = .ok 77 := by decide +kernel
  have hok : ∀ body, writeNativeBody oneLocal.candidate.sourceName oneLocal.candidate.prototypes
      = .ok body → (readNativeBody ⟨40, 96, 48, 24, some⟩ body .default ⟨0, 4096, 0⟩).isOk := by
    intro body hbody
    cases hbody
    decide +kernel
  obtain ⟨-, ⟨meter', hread⟩ | ⟨e, he, -⟩⟩ := hreads.1 oneLocal rfl 77 _ hsize rfl
  · exact ⟨_, meter', rfl, hread⟩
  · have hread := hok _ rfl
    rw [he] at hread
    cases hread

end RivetLua.Bytecode.Transport
