import RivetLua.Bytecode.RoundTrip
import RivetLua.Bytecode.TransportScan

namespace RivetLua.Bytecode.Transport

open RivetLua.Core Wire

/-!
# Bytecode — the native scans agree with their readers

The readers of the two native sidecars check every count against the length of the whole body.
A scan that gets through has walked over as many records as it counted, so these checks do not
stop a reader behind it: what is left to fail is the meter.

* `follows_readNativePrototype` — the debug data of a prototype;
* `agree_readNativeBody`, `agree_readNativeDeclarations` — the two sidecars;
* `transport_scan_agrees` — all scans.
-/

/-- The errors of the meter. -/
def MeterError (e : TransportError) : Prop :=
  e ∈ [limit "傳輸容量溢位", limit "傳輸長度溢位",
    limit "native candidate 配置超出 aggregate 預准入", allocated "native candidate 配置失敗",
    limit "native candidate 容量超限", limit "native candidate 實際容量超出 aggregate 預准入"]

/-- Every error is allowed. -/
def Any (_ : TransportError) : Prop := True

theorem checkedMul_error {left right : Nat} {e : TransportError}
    (h : checkedMul left right = .error e) : MeterError e := by
  unfold checkedMul at h
  split at h <;> cases h
  simp [MeterError]

theorem checkedAdd_error {left right : Nat} {e : TransportError}
    (h : checkedAdd left right = .error e) : MeterError e := by
  unfold checkedAdd at h
  split at h <;> cases h
  simp [MeterError]

theorem nativeReserveExact_error {answer : Option Nat} {additional : Nat} {e : TransportError}
    (h : nativeReserveExact answer additional = .error e) : MeterError e := by
  unfold nativeReserveExact at h
  split at h
  · cases h
    simp [MeterError]
  · split at h
    · cases h
    · split at h
      · cases h
        simp [MeterError]
      · split at h <;> cases h
        simp [MeterError]

/-- A computation all of whose errors are those of the meter. -/
def Metered {α : Type} (x : Except TransportError α) : Prop := ∀ e, x = .error e → MeterError e

theorem Metered.bind {α β : Type} {x : Except TransportError α}
    {k : α → Except TransportError β} (h : Metered x) (hk : ∀ a, Metered (k a)) :
    Metered (x >>= k) := by
  intro e he
  rcases x with e' | a
  · have hee : e' = e := Except.error.inj he
    exact h e (by rw [hee])
  · exact hk a e he

theorem Metered.reject {c : Prop} [Decidable c] {e : TransportError} (h : MeterError e) :
    Metered (Check.reject c e) := by
  intro e' he'
  unfold Check.reject at he'
  split at he' <;> cases he'
  exact h

/-- The meter fails as a meter. -/
theorem metered_reserve (backing : Backing) (meter : AllocationMeter) (size count : Nat) :
    Metered (meter.reserve backing size count) := by
  refine Metered.bind (fun _ => checkedMul_error) fun _ => ?_
  refine Metered.bind (fun _ => checkedAdd_error) fun _ => ?_
  refine Metered.bind (.reject (by simp [MeterError])) fun _ => ?_
  refine Metered.bind (fun _ => nativeReserveExact_error) fun _ => ?_
  refine Metered.bind (fun _ => checkedMul_error) fun _ => ?_
  refine Metered.bind (fun _ => checkedAdd_error) fun _ => ?_
  refine Metered.bind (.reject (by simp [MeterError])) fun _ => ?_
  intro e he
  cases he

/-! ### Words -/

section Native

variable {N c : Nat}

theorem scan_u8 : Fixed MeterError 1 u8 := (Fixed.take _ 1).bind fun _ => .pure _

theorem scan_u16 : Fixed MeterError 2 u16 := (Fixed.take _ 2).bind fun _ => .pure _

theorem scan_u32 : Fixed MeterError 4 u32 := (Fixed.take _ 4).bind fun _ => .pure _

theorem takes_u8 : Takes 1 u8 := (Takes.take _ 1).bind fun _ => .pure _

theorem takes_u32 : Takes 4 u32 := (Takes.take _ 4).bind fun _ => .pure _

theorem takes_skip (n : Nat) : Takes n (skip n) := (Takes.take _ n).bind fun _ => .pure _

theorem takes_section : Takes 4 «section» := by
  have hsection : Takes (4 + 0) «section» :=
    takes_u32.bind fun size => (Takes.take _ size.toNat).mono (Nat.zero_le _)
  exact hsection

theorem takes_scanNativeLocal : Takes 27 scanNativeLocal :=
  (takes_skip 23).bind fun _ => takes_section.bind fun _ => .pure _

theorem takes_scanNativeName : Takes 1 scanNativeName := by
  have hname : Takes (1 + 0) scanNativeName := by
    refine takes_u8.bind fun tag => ?_
    split
    · exact .pure _
    · exact (takes_section.bind fun _ => .pure _).mono (Nat.zero_le _)
    · exact Takes.location_bind fun _ => .fail
  exact hname

/-- What is left never gets longer. -/
theorem Room.rest {front back : List UInt8} {n : Nat} (h : Room N 0 (front ++ back))
    (_ : front.length = n) : Room N 0 back := by
  simp only [Room, List.length_append] at h ⊢
  omega

theorem both_u8 : Follows MeterError Any (Room N 0) u8 u8 fun a b rest => b = a ∧ Room N 0 rest :=
  Follows.word _ fun _ _ => Room.rest

theorem both_u32 : Follows MeterError Any (Room N 0) u32 u32 fun a b rest =>
    b = a ∧ Room N 0 rest :=
  Follows.word _ fun _ _ => Room.rest

/-- The same section on both sides. -/
theorem both_section : Follows MeterError Any (Room N 0) «section» «section» fun a b rest =>
    b = a ∧ Room N 0 rest := by
  refine both_u32.bind fun size size' => Follows.of_pre fun hsize => ?_
  subst hsize
  exact Follows.take fun front back hroom hlen => ⟨rfl, hroom.rest hlen⟩

/-- A copy is paid for. -/
theorem follows_readCopy {β : Type} {l : Scan β} {α : Type} {backing : Backing}
    {meter : AllocationMeter} {k : List UInt8 × AllocationMeter → Scan α}
    {R : α → β → List UInt8 → Prop}
    (h : ∀ copy, Follows MeterError Any (Room N 0) (k copy) l R) :
    Follows MeterError Any (Room N 0) (readCopy backing meter >>= k)
      («section» >>= fun _ => l) R := by
  have hcopy : readCopy backing meter >>= k = «section» >>= fun bytes =>
      compute (meter.reserve backing 1 bytes.length) >>= fun meter => k (bytes, meter) := by
    simp only [readCopy, bind_assoc, pure_bind]
  rw [hcopy]
  refine both_section.bind fun bytes _ => Follows.of_pre fun _ => ?_
  exact Follows.compute_left (metered_reserve backing meter 1 bytes.length) fun _ _ => h _

theorem follows_readNativeLocal {backing : Backing} (locals : List NativeLocal × AllocationMeter) :
    Follows MeterError Any (Room N 0) (readNativeLocal backing locals) scanNativeLocal
      fun _ _ => Room N 0 := by
  refine Follows.pair_left (Follows.pair_left (Follows.pair_left (Follows.pair_left
    (Follows.pair_left (Follows.pair_left (Follows.bind (follows_skip ?_ (Nat.zero_le _))
      fun head _ => ?_))))))
  · exact (((((scan_u32.bind fun _ => scan_u32.bind fun _ => .pure _).bind fun _ =>
      scan_u16.bind fun _ => .pure _).bind fun _ => scan_u8.bind fun _ => .pure _).bind fun _ =>
        scan_u32.bind fun _ => .pure _).bind fun _ => scan_u32.bind fun _ => .pure _).bind
          fun _ => scan_u32.bind fun _ => .pure _
  · exact follows_readCopy fun copy => Follows.pure fun _ h => h

theorem follows_readNativeName {backing : Backing}
    (names : List (Option (List UInt8)) × AllocationMeter) :
    Follows MeterError Any (Room N 0) (readNativeName backing names) scanNativeName
      fun _ _ => Room N 0 := by
  refine both_u8.bind fun tag tag' => Follows.of_pre fun htag => ?_
  subst htag
  split
  · exact Follows.pure fun _ h => h
  · exact follows_readCopy fun copy => Follows.pure fun _ h => h
  · exact Follows.location_left fun _ => Follows.location_right fun _ => Follows.fail

end Native

/-! ### The debug data of a prototype -/

/-- What a list of prototypes counts for. -/
def nativeCounts (prototypes : List NativePrototypeDebug) : NativeCounts :=
  ⟨(prototypes.map fun prototype => prototype.lines.length).sum,
    (prototypes.map fun prototype => prototype.locals.length).sum,
    (prototypes.map fun prototype => prototype.upvalueNames.length).sum⟩

theorem nativeCounts_concat (prototypes : List NativePrototypeDebug)
    (prototype : NativePrototypeDebug) :
    nativeCounts (prototypes ++ [prototype]) =
      ⟨(nativeCounts prototypes).lines + prototype.lines.length,
        (nativeCounts prototypes).locals + prototype.locals.length,
        (nativeCounts prototypes).names + prototype.upvalueNames.length⟩ := by
  simp [nativeCounts]

theorem checkedAdd_eq_ok {left right sum : Nat} (h : checkedAdd left right = .ok sum) :
    sum = left + right := by
  unfold checkedAdd at h
  split at h
  · cases h
  · exact (Except.ok.inj h).symm

theorem checkedMul_eq_ok {left right product : Nat} (h : checkedMul left right = .ok product) :
    product = left * right := by
  unfold checkedMul at h
  split at h
  · cases h
  · exact (Except.ok.inj h).symm

section Prototype

variable {N : Nat} {α β γ : Type} {backing : Backing}

/-- A count that is checked against the length of the body, in front of a walk over as many
    records: a count that is too large is one that the walk does not get through. -/
theorem follows_counted {c : Prop} [Decidable c] {e : TransportError} {k : Nat} {r : Scan α}
    {l : Scan γ} {l' : γ → Scan β} {R : α → β → List UInt8 → Prop} (hl : Takes k l)
    (hc : c → N < k) (h : Follows MeterError Any (Room N 0) r (l >>= l') R) :
    Follows MeterError Any (Room N 0) (Wire.reject c e >>= fun _ => r) (l >>= l') R := by
  by_cases hcond : c
  · refine Follows.never_right (fun _ => trivial) fun rest pos hroom => ?_
    refine hl.never ?_
    have hN := hc hcond
    unfold Room at hroom
    omega
  · exact Follows.reject_left (fun hc => absurd hc hcond) fun _ => h

/-- The count of a table, which the scan adds to those so far. -/
theorem follows_total {total maximum : Nat} {detail : String} {r : UInt32 → Scan α}
    {l : UInt32 → Nat → Scan β} {R : α → β → List UInt8 → Prop}
    (h : ∀ count : UInt32, ¬ maximum < total + count.toNat →
      Follows MeterError Any (Room N 0) (r count) (l count (total + count.toNat)) R) :
    Follows MeterError Any (Room N 0) (u32 >>= r)
      (do
        let count ← u32
        let sum ← compute (checkedAdd total count.toNat)
        Wire.reject (maximum < sum) (limit detail)
        l count sum) R := by
  refine both_u32.bind fun count count' => Follows.of_pre fun hcount => ?_
  subst hcount
  refine Follows.compute_right (fun _ _ => trivial) fun sum hsum => ?_
  rw [checkedAdd_eq_ok hsum]
  exact Follows.reject_right (fun _ => trivial) fun hmax => h count' hmax

theorem readNativeLine_length {lines lines' : List UInt32} {i t : Input}
    (h : readNativeLine lines i = .ok (lines', t)) : lines'.length = lines.length + 1 := by
  obtain ⟨line, u, -, hpure⟩ := bind_eq_ok.mp h
  obtain ⟨rfl, -⟩ := pure_eq_ok.mp hpure
  simp

theorem readNativeLocal_length {locals locals' : List NativeLocal × AllocationMeter} {i t : Input}
    (h : readNativeLocal backing locals i = .ok (locals', t)) :
    locals'.1.length = locals.1.length + 1 := by
  obtain ⟨function, i₁, -, h⟩ := bind_eq_ok.mp h
  obtain ⟨ordinal, i₂, -, h⟩ := bind_eq_ok.mp h
  obtain ⟨register, i₃, -, h⟩ := bind_eq_ok.mp h
  obtain ⟨slot, i₄, -, h⟩ := bind_eq_ok.mp h
  obtain ⟨initializedPc, i₅, -, h⟩ := bind_eq_ok.mp h
  obtain ⟨startPc, i₆, -, h⟩ := bind_eq_ok.mp h
  obtain ⟨endPc, i₇, -, h⟩ := bind_eq_ok.mp h
  obtain ⟨name, i₈, -, hpure⟩ := bind_eq_ok.mp h
  obtain ⟨rfl, -⟩ := pure_eq_ok.mp hpure
  simp

theorem readNativeName_length {names names' : List (Option (List UInt8)) × AllocationMeter}
    {i t : Input} (h : readNativeName backing names i = .ok (names', t)) :
    names'.1.length = names.1.length + 1 := by
  obtain ⟨tag, u, -, h⟩ := bind_eq_ok.mp h
  split at h
  · obtain ⟨rfl, -⟩ := pure_eq_ok.mp h
    simp
  · obtain ⟨name, v, -, hpure⟩ := bind_eq_ok.mp h
    obtain ⟨rfl, -⟩ := pure_eq_ok.mp hpure
    simp
  · cases h

/-- The lines of a prototype. -/
theorem follows_readNativeLines (count : Nat) :
    Follows MeterError Any (Room N 0) (iterate readNativeLine count []) (skip (count * 4))
      fun lines _ rest => lines.length = count ∧ Room N 0 rest := by
  have hfixed : Fixed MeterError (count * 4) (iterate readNativeLine count []) :=
    Fixed.iterate (fun _ => scan_u32.bind fun _ => .pure _) count []
  refine (follows_skip hfixed (Nat.zero_le _)).and_left fun i lines t hrun => ?_
  have hlen := iterate_adds (fun b i b' t => readNativeLine_length) hrun
  simpa using hlen

/-- The locals of a prototype. -/
theorem follows_readNativeLocals (count : Nat) (meter : AllocationMeter) :
    Follows MeterError Any (Room N 0) (iterate (readNativeLocal backing) count ([], meter))
      (iterate (fun _ => scanNativeLocal) count ())
      fun locals _ rest => locals.1.length = count ∧ Room N 0 rest := by
  refine (Follows.iterate (fun locals _ => follows_readNativeLocal locals) count _ _).and_left
    fun i locals t hrun => ?_
  have hlen := iterate_adds (fun b i b' t => readNativeLocal_length) hrun
  simpa using hlen

/-- The names of the upvalues of a prototype. -/
theorem follows_readNativeNames (count : Nat) (meter : AllocationMeter) :
    Follows MeterError Any (Room N 0) (iterate (readNativeName backing) count ([], meter))
      (iterate (fun _ => scanNativeName) count ())
      fun names _ rest => names.1.length = count ∧ Room N 0 rest := by
  refine (Follows.iterate (fun names _ => follows_readNativeName names) count _ _).and_left
    fun i names t hrun => ?_
  have hlen := iterate_adds (fun b i b' t => readNativeName_length) hrun
  simpa using hlen

/-- The debug data of one prototype. -/
theorem follows_readNativePrototype (limits : VerifyLimits)
    (prototypes : List NativePrototypeDebug × AllocationMeter) :
    Follows MeterError Any (Room N 0) (readNativePrototype backing limits N prototypes)
      (scanNativePrototype limits (nativeCounts prototypes.1))
      fun a b rest => b = nativeCounts a.1 ∧ Room N 0 rest := by
  refine Follows.pair_left (Follows.pair_left (Follows.pair_left
    (Follows.bind (follows_skip ?_ (Nat.zero_le _)) fun head _ => ?_)))
  · exact ((scan_u32.bind fun _ => scan_u32.bind fun _ => .pure _).bind fun _ =>
      scan_u32.bind fun _ => .pure _).bind fun _ => scan_u8.bind fun _ => .pure _
  -- the lines
  refine follows_total fun lineCount hlines => ?_
  refine Follows.compute_right (fun _ _ => trivial) fun size hsize => ?_
  rw [checkedMul_eq_ok hsize]
  refine follows_counted (takes_skip _) (by omega) ?_
  refine Follows.compute_left (metered_reserve _ _ _ _) fun meter _ => ?_
  refine (follows_readNativeLines lineCount.toNat).bind fun lines _ => ?_
  refine Follows.of_pre fun hlineCount => ?_
  -- the locals
  refine follows_total fun localCount hlocals => ?_
  refine follows_counted (Takes.iterate (fun _ => takes_scanNativeLocal) _ _) (by omega) ?_
  refine Follows.compute_left (metered_reserve _ _ _ _) fun meter _ => ?_
  refine (follows_readNativeLocals localCount.toNat meter).bind fun locals _ => ?_
  refine Follows.of_pre fun hlocalCount => ?_
  -- the names
  refine both_u32.bind fun nameCount nameCount' => Follows.of_pre fun hnames => ?_
  subst hnames
  refine Follows.compute_right (fun _ _ => trivial) fun total htotal => ?_
  refine Follows.reject_right (fun _ => trivial) fun hmax => ?_
  refine follows_counted (Takes.iterate (fun _ => takes_scanNativeName) _ _) (by omega) ?_
  refine Follows.compute_left (metered_reserve _ _ _ _) fun meter _ => ?_
  refine (follows_readNativeNames nameCount'.toNat meter).bind fun names _ => ?_
  refine Follows.of_pre fun hnameCount => Follows.pure fun rest hroom => ⟨?_, hroom⟩
  rw [nativeCounts_concat, checkedAdd_eq_ok htotal, hlineCount, hlocalCount, hnameCount]

end Prototype

/-! ### The sidecars -/

theorem Room.all (bytes : List UInt8) : Room bytes.length 0 bytes := by
  simp [Room]

/-- The debug data are read with the counts of the scan, or the meter runs out. -/
theorem agree_readNativeBody (backing : Backing) (body : List UInt8) (limits : VerifyLimits)
    (meter : AllocationMeter) :
    Agree MeterError Any (readNativeBody backing body limits meter) (scanNative body limits)
      fun debug counts => counts = nativeCounts debug.1.prototypes := by
  refine Follows.runAt (P := Room body.length 0)
    (R := fun (debug : NativeDebugCandidate × AllocationMeter) counts _ =>
      counts = nativeCounts debug.1.prototypes) ?_ (Room.all body) 0 0
  refine follows_readCopy fun sourceName => ?_
  refine both_u32.bind fun count count' => Follows.of_pre fun hcount => ?_
  subst hcount
  refine Follows.reject_right (fun _ => trivial) fun hmax => ?_
  refine Follows.reject_left (fun hc => absurd hc hmax) fun _ => ?_
  refine Follows.compute_left (metered_reserve _ _ _ _) fun meter _ => ?_
  have hloop := Follows.iterate (I := fun prototypes counts rest =>
    counts = nativeCounts prototypes.1 ∧ Room body.length 0 rest)
    (fun prototypes counts => Follows.of_pre fun hcounts => by
      rw [hcounts]
      exact @follows_readNativePrototype _ backing limits prototypes)
    count'.toNat ([], meter) ⟨0, 0, 0⟩
  refine (hloop.conseq (fun rest hroom => ⟨rfl, hroom⟩) fun _ _ _ h => h).map_left ?_
  intro prototypes counts rest h
  exact h.1

section Declarations

variable {N : Nat} {α β : Type} {c : Prop} [Decidable c] {r : Scan α} {s : Scan β}
  {R : α → β → List UInt8 → Prop} {P : List UInt8 → Prop}

theorem both_u16 : Follows MeterError Any (Room N 0) u16 u16 fun a b rest =>
    b = a ∧ Room N 0 rest :=
  Follows.word _ fun _ _ => Room.rest

/-- A check of the scan. -/
theorem follows_rejectHere_right {detail : String} (h : ¬ c → Follows MeterError Any P r s R) :
    Follows MeterError Any P r (rejectHere c detail >>= fun _ => s) R := by
  simp only [rejectHere, bind_assoc]
  exact Follows.location_right fun _ => Follows.reject_right (fun _ => trivial) h

/-- A check of the reader that the scan made before. -/
theorem follows_rejectHere_left {detail : String} (hc : ¬ c)
    (h : Follows MeterError Any P r s R) :
    Follows MeterError Any P (rejectHere c detail >>= fun _ => r) s R := by
  simp only [rejectHere, bind_assoc]
  exact Follows.location_left fun _ => Follows.reject_left (fun h => absurd h hc) fun _ => h

end Declarations

/-- One declaration. -/
theorem follows_readDeclaration {N : Nat} {backing : Backing}
    (calls : List OfficialPlanCall × AllocationMeter) (previous : Option (UInt32 × UInt32)) :
    Follows MeterError Any (Room N 0) (readDeclaration backing calls) (scanDeclaration previous)
      fun _ _ => Room N 0 := by
  simp only [readDeclaration, scanDeclaration, scanInput, scanTail, bind_assoc]
  refine both_u32.bind fun prototype _ => Follows.of_pre fun _ => ?_
  refine both_u32.bind fun pc _ => Follows.of_pre fun _ => ?_
  refine both_u16.bind fun base _ => Follows.of_pre fun _ => ?_
  refine both_u16.bind fun upvalue _ => Follows.of_pre fun _ => ?_
  refine both_u16.bind fun inputCount inputCount' => Follows.of_pre fun hinputs => ?_
  subst hinputs
  refine follows_rejectHere_right fun hcount => follows_rejectHere_left hcount ?_
  refine Follows.compute_left (metered_reserve _ _ _ _) fun meter _ => ?_
  refine both_u16.bind fun first _ => Follows.of_pre fun _ => ?_
  refine follows_rejectHere_right fun _ => follows_rejectHere_right fun _ => ?_
  refine both_u16.bind fun second _ => Follows.of_pre fun _ => ?_
  refine follows_rejectHere_right fun _ => follows_rejectHere_right fun _ => ?_
  refine both_u16.bind fun third _ => Follows.of_pre fun _ => ?_
  refine follows_rejectHere_right fun _ => follows_rejectHere_right fun _ => ?_
  refine both_u8.bind fun present present' => Follows.of_pre fun hpresent => ?_
  subst hpresent
  refine follows_rejectHere_right fun hone => follows_rejectHere_left hone ?_
  refine both_u16.bind fun tail _ => Follows.of_pre fun _ => ?_
  refine follows_rejectHere_right fun _ => follows_rejectHere_right fun _ => ?_
  refine both_u8.bind fun builtin builtin' => Follows.of_pre fun hbuiltin => ?_
  subst hbuiltin
  refine follows_rejectHere_right fun hzero => follows_rejectHere_left hzero ?_
  exact follows_rejectHere_right fun _ => Follows.pure fun _ h => h

theorem readDeclaration_length {backing : Backing}
    {calls calls' : List OfficialPlanCall × AllocationMeter} {i t : Input}
    (h : readDeclaration backing calls i = .ok (calls', t)) :
    calls'.1.length = calls.1.length + 1 := by
  obtain ⟨prototype, i₁, -, h⟩ := bind_eq_ok.mp h
  obtain ⟨callPc, i₂, -, h⟩ := bind_eq_ok.mp h
  obtain ⟨functionRegister, i₃, -, h⟩ := bind_eq_ok.mp h
  obtain ⟨sourceUpvalue, i₄, -, h⟩ := bind_eq_ok.mp h
  obtain ⟨inputCount, i₅, -, h⟩ := bind_eq_ok.mp h
  obtain ⟨-, i₆, -, h⟩ := bind_eq_ok.mp h
  obtain ⟨meter, i₇, -, h⟩ := bind_eq_ok.mp h
  obtain ⟨first, i₈, -, h⟩ := bind_eq_ok.mp h
  obtain ⟨second, i₉, -, h⟩ := bind_eq_ok.mp h
  obtain ⟨third, i₁₀, -, h⟩ := bind_eq_ok.mp h
  obtain ⟨present, i₁₁, -, h⟩ := bind_eq_ok.mp h
  obtain ⟨-, i₁₂, -, h⟩ := bind_eq_ok.mp h
  obtain ⟨tail, i₁₃, -, h⟩ := bind_eq_ok.mp h
  obtain ⟨builtin, i₁₄, -, h⟩ := bind_eq_ok.mp h
  obtain ⟨-, i₁₅, -, hpure⟩ := bind_eq_ok.mp h
  obtain ⟨rfl, -⟩ := pure_eq_ok.mp hpure
  simp

/-- The debug data behind the declarations. -/
theorem follows_readDeclarationDebug {N : Nat} {backing : Backing} (limits : VerifyLimits)
    (meter : AllocationMeter) :
    Follows MeterError Any (Room N 0) (readDeclarationDebug backing limits meter)
      (scanDeclarationDebug limits)
      fun a b _ => b = a.1.map fun debug => nativeCounts debug.prototypes := by
  refine both_u8.bind fun tag tag' => Follows.of_pre fun htag => ?_
  subst htag
  split
  · exact Follows.pure fun _ _ => rfl
  · refine both_section.bind fun body body' => Follows.of_pre fun hbody => ?_
    subst hbody
    refine Follows.bind (R := fun debug counts _ => counts = nativeCounts debug.1.prototypes)
      (Follows.compute fun _ _ => agree_readNativeBody backing body' limits meter) fun debug counts => ?_
    refine Follows.pure fun _ hcounts => ?_
    rw [hcounts]
    rfl
  · exact Follows.location_left fun _ => Follows.location_right fun _ => Follows.fail

/-- What the scan of the declarations counts. -/
def declarationCounts (calls : List OfficialPlanCall) (debug : Option NativeDebugCandidate) :
    NativeDeclarationCounts :=
  ⟨calls.length, debug.map fun debug => nativeCounts debug.prototypes⟩

/-- The declarations are read with the counts of the scan, or the meter runs out. -/
theorem agree_readNativeDeclarations (backing : Backing) (body : List UInt8)
    (limits : VerifyLimits) (meter : AllocationMeter) :
    Agree MeterError Any (readNativeDeclarations backing body limits meter)
      (scanNativeDeclarations body limits)
      fun read counts => counts = declarationCounts read.1.1 read.1.2 := by
  refine Follows.runAt (P := Room body.length 0)
    (R := fun (read : (List OfficialPlanCall × Option NativeDebugCandidate) × AllocationMeter)
      counts _ => counts = declarationCounts read.1.1 read.1.2) ?_ (Room.all body) 0 0
  refine Follows.bind (follows_skip ((Fixed.take _ 32).bind fun _ => .pure _) (Nat.zero_le _))
    fun _ _ => ?_
  refine both_u32.bind fun count count' => Follows.of_pre fun hcount => ?_
  subst hcount
  refine Follows.reject_right (fun _ => trivial) fun hmax => ?_
  refine Follows.reject_left (fun hc => absurd hc hmax) fun _ => ?_
  refine Follows.compute_left (metered_reserve _ _ _ _) fun meter _ => ?_
  have hcalls : Follows MeterError Any (Room body.length 0)
      (iterate (readDeclaration backing) count'.toNat ([], meter))
      (iterate scanDeclaration count'.toNat none)
      fun calls _ rest => calls.1.length = count'.toNat ∧ Room body.length 0 rest := by
    refine (Follows.iterate (I := fun _ _ => Room body.length 0) follows_readDeclaration
      count'.toNat _ _).and_left fun i calls t hrun => ?_
    have hlen := iterate_adds (fun b i b' t => readDeclaration_length) hrun
    simpa using hlen
  refine hcalls.bind fun calls _ => Follows.of_pre fun hlength => ?_
  refine (follows_readDeclarationDebug limits calls.2).bind fun debug counts => ?_
  refine Follows.pure fun _ hcounts => ?_
  rw [hcounts, ← hlength]
  rfl

/-! ### All scans -/

/-- **The scans of the transport agree with the readers.**  What the decoder accepts the scan
    accepts, with the counts of the decoded module.  Behind a scan that accepts, the decoder does
    not fail at the end of a section: it fails inside one, or the verifier rejects what was read.
    What the native scans accept is read with the same counts, unless the meter fails. -/
theorem transport_scan_agrees (alloc : Allocator) (bytes : List UInt8) (profile : LuaProfile)
    (limits : VerifyLimits) (backing : Backing) (body : List UInt8) (meter : AllocationMeter) :
    (∀ verified, decodeModule alloc bytes profile limits = .ok verified →
      ∃ counts, scanRvlu bytes profile limits = .ok counts
        ∧ counts.prototypes = verified.module.prototypes.length
        ∧ counts.instructions = instructionCount verified.module.prototypes
        ∧ counts.constants = constantCount verified.module.prototypes)
    ∧ (∀ counts e, scanRvlu bytes profile limits = .ok counts →
        decodeModule alloc bytes profile limits = .error e →
        e.message ∉ boundaryMessages
          ∨ ∃ module, readModule bytes profile limits = .ok module
            ∧ verifyModule alloc module profile limits = .error e)
    ∧ (∀ counts, scanNative body limits = .ok counts →
        (∃ debug meter', readNativeBody backing body limits meter = .ok (debug, meter')
          ∧ counts = nativeCounts debug.prototypes)
        ∨ ∃ e, readNativeBody backing body limits meter = .error e ∧ MeterError e)
    ∧ ∀ counts, scanNativeDeclarations body limits = .ok counts →
        (∃ calls debug meter',
          readNativeDeclarations backing body limits meter = .ok ((calls, debug), meter')
          ∧ counts = declarationCounts calls debug)
        ∨ ∃ e, readNativeDeclarations backing body limits meter = .error e ∧ MeterError e := by
  have hmodule := agree_readModule bytes profile limits
  refine ⟨?_, ?_, ?_, ?_⟩
  · intro verified hdecode
    rw [decodeModule_eq] at hdecode
    obtain ⟨module, hread, hverify⟩ := Check.bind_eq_ok.mp hdecode
    obtain ⟨-, rfl⟩ := verifyModule_eq_ok.mp hverify
    obtain ⟨counts, hscan, hprototypes, hconstants, hinstructions⟩ | ⟨e, -, hnever⟩ :=
      hmodule.of_left hread
    · exact ⟨counts, hscan, hprototypes, hinstructions, hconstants⟩
    · exact hnever.elim
  · intro counts e hscan hdecode
    rw [decodeModule_eq] at hdecode
    obtain ⟨module, hread, -⟩ | ⟨e', hread, hinner⟩ := hmodule.of_right hscan
    · rw [hread] at hdecode
      exact .inr ⟨module, hread, hdecode⟩
    · rw [hread] at hdecode
      have he : e' = e := Except.error.inj hdecode
      rw [← he]
      exact .inl hinner
  · intro counts hscan
    obtain ⟨⟨debug, meter'⟩, hread, hcounts⟩ | herror :=
      (agree_readNativeBody backing body limits meter).of_right hscan
    · exact .inl ⟨debug, meter', hread, hcounts⟩
    · exact .inr herror
  · intro counts hscan
    obtain ⟨⟨⟨calls, debug⟩, meter'⟩, hread, hcounts⟩ | herror :=
      (agree_readNativeDeclarations backing body limits meter).of_right hscan
    · exact .inl ⟨calls, debug, meter', hread, hcounts⟩
    · exact .inr herror

/-- An allocator that gives exactly what it is asked for, of a vector of one name. -/
def oneName : Backing := ⟨24, 96, 56, 24, fun _ => some 1⟩

/-- The empty chunk, and a body with one source name and no prototype. -/
theorem transport_scan_agrees_emptyChunk :
    (∃ counts, scanRvlu emptyChunkBytes .lua54 .default = .ok counts ∧ counts.prototypes = 1)
      ∧ (∃ debug meter', readNativeBody oneName [1, 0, 0, 0, 120, 0, 0, 0, 0] .default ⟨0, 64, 0⟩
          = .ok (debug, meter')) := by
  have hagrees := transport_scan_agrees .exact emptyChunkBytes .lua54 .default oneName
    [1, 0, 0, 0, 120, 0, 0, 0, 0] ⟨0, 64, 0⟩
  obtain ⟨hdecoded, -, hnative, -⟩ := hagrees
  refine ⟨?_, ?_⟩
  · have hdecode : decodeModule .exact emptyChunkBytes .lua54 .default
        = .ok ⟨emptyChunk, 4⟩ := by
      decide +kernel
    obtain ⟨counts, hscan, hprototypes, -⟩ := hdecoded _ hdecode
    exact ⟨counts, hscan, hprototypes⟩
  · obtain ⟨debug, meter', hread, -⟩ | ⟨e, hread, -⟩ := hnative ⟨0, 0, 0⟩ (by decide +kernel)
    · exact ⟨debug, meter', hread⟩
    · have hok : (readNativeBody oneName [1, 0, 0, 0, 120, 0, 0, 0, 0] .default ⟨0, 64, 0⟩).isOk := by
        decide +kernel
      rw [hread] at hok
      cases hok

end RivetLua.Bytecode.Transport
