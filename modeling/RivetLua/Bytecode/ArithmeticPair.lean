import Mathlib.Algebra.Ring.Nat
import RivetLua.Bytecode.Module

namespace RivetLua.Bytecode.OfficialTranslation

open RivetLua.Core

/-!
# Bytecode — arithmetic in official chunks

The reference compiler emits two words for an arithmetic operation: the operation itself, and behind
it the call of the metamethod for operands that are no numbers.  A small constant is an immediate
operand, and a subtraction or a left shift by one is emitted as the opposite operation by the
negated constant.  The translation checks that the two words fit together and makes one operation
of them.

* `luaKPosfix` — the words that the reference compiler emits, after its `lcode.c`;
* `validateArithmeticPair`, `acceptPair` — the check;
* `translateArithmetic` — the operation that a checked pair is translated to;
* `arithmeticPair_iff` — which pairs of the reference compiler the check accepts, and which pairs
  it accepts that do not fit together.
-/

/-! ### Words -/

/-- The fields of `Decoded` that arithmetic uses. -/
structure Decoded where
  opcode : UInt8
  a : UInt16
  b : UInt16
  c : UInt16
  k : Bool
  sb : Int
  sc : Int
  deriving DecidableEq, Repr

/-- `Decoded::new`. -/
def Decoded.new (word : UInt32) : Decoded where
  opcode := (word &&& 0x7f).toUInt8
  a := ((word >>> 7) &&& 0xff).toUInt16
  b := ((word >>> 16) &&& 0xff).toUInt16
  c := ((word >>> 24) &&& 0xff).toUInt16
  k := (word >>> 15) &&& 1 != 0
  sb := ((word >>> 16) &&& 0xff).toNat - 127
  sc := ((word >>> 24) &&& 0xff).toNat - 127

/-- `CREATE_ABCk`, from the lowest bits up. -/
def createABCk (o a b c : UInt8) (k : Bool) : UInt32 :=
  o.toUInt32 ||| a.toUInt32 <<< 7 ||| k.toUInt32 <<< 15 ||| b.toUInt32 <<< 16
    ||| c.toUInt32 <<< 24

theorem toNat_or_shift {x y : UInt32} {n : Nat} (hn : n < 32) (hx : x.toNat < 2 ^ n)
    (hy : y.toNat * 2 ^ n < 2 ^ 32) :
    (x ||| y <<< UInt32.ofNat n).toNat = x.toNat + y.toNat * 2 ^ n := by
  have hshift : (UInt32.ofNat n).toNat % 32 = n := by
    rw [UInt32.toNat_ofNat']
    omega
  rw [UInt32.toNat_or, UInt32.toNat_shiftLeft, hshift, Nat.shiftLeft_eq, Nat.mod_eq_of_lt hy,
    Nat.or_comm, Nat.mul_comm y.toNat, ← Nat.two_pow_add_eq_or_of_lt hx, Nat.add_comm]

theorem createABCk_toNat {o : UInt8} (ho : o < 128) (a b c : UInt8) (k : Bool) :
    (createABCk o a b c k).toNat
      = o.toNat + a.toNat * 2 ^ 7 + k.toNat * 2 ^ 15 + b.toNat * 2 ^ 16 + c.toNat * 2 ^ 24 := by
  have ho' : o.toNat < 128 := ho
  have ha := a.toNat_lt
  have hb := b.toNat_lt
  have hc := c.toNat_lt
  have hk := Bool.toNat_lt k
  have h₁ : (o.toUInt32 ||| a.toUInt32 <<< 7).toNat = o.toNat + a.toNat * 2 ^ 7 :=
    toNat_or_shift (n := 7) (by omega) ho' (by show a.toNat * _ < _; omega)
  have h₂ : (o.toUInt32 ||| a.toUInt32 <<< 7 ||| k.toUInt32 <<< 15).toNat
      = o.toNat + a.toNat * 2 ^ 7 + k.toNat * 2 ^ 15 := by
    rw [← h₁]
    have hk' : k.toUInt32.toNat = k.toNat := by cases k <;> rfl
    rw [← hk']
    exact toNat_or_shift (n := 15) (by omega) (by omega) (by omega)
  have h₃ : (o.toUInt32 ||| a.toUInt32 <<< 7 ||| k.toUInt32 <<< 15 ||| b.toUInt32 <<< 16).toNat
      = o.toNat + a.toNat * 2 ^ 7 + k.toNat * 2 ^ 15 + b.toNat * 2 ^ 16 := by
    rw [← h₂]
    exact toNat_or_shift (n := 16) (by omega) (by omega) (by show b.toNat * _ < _; omega)
  rw [← h₃]
  exact toNat_or_shift (n := 24) (by omega) (by omega) (by show c.toNat * _ < _; omega)

theorem toNat_field (word : UInt32) {n : Nat} (hn : n < 32) :
    ((word >>> UInt32.ofNat n) &&& 0xff).toNat = word.toNat / 2 ^ n % 256 := by
  have hshift : (UInt32.ofNat n).toNat % 32 = n := by
    rw [UInt32.toNat_ofNat']
    omega
  rw [UInt32.toNat_and, UInt32.toNat_shiftRight, hshift, Nat.shiftRight_eq_div_pow]
  exact Nat.and_two_pow_sub_one_eq_mod _ 8

/-- The fields of a word that was put together from them. -/
theorem Decoded.new_createABCk {o : UInt8} (ho : o < 128) (a b c : UInt8) (k : Bool) :
    Decoded.new (createABCk o a b c k)
      = ⟨o, a.toUInt16, b.toUInt16, c.toUInt16, k, b.toNat - 127, c.toNat - 127⟩ := by
  have hword := createABCk_toNat ho a b c k
  have ho' : o.toNat < 128 := ho
  have ha := a.toNat_lt
  have hb := b.toNat_lt
  have hc := c.toNat_lt
  have hk := Bool.toNat_lt k
  generalize createABCk o a b c k = word at hword
  have hfa : ((word >>> 7) &&& 0xff).toNat = a.toNat := by
    rw [show (7 : UInt32) = UInt32.ofNat 7 from rfl, toNat_field word (by omega)]
    omega
  have hfb : ((word >>> 16) &&& 0xff).toNat = b.toNat := by
    rw [show (16 : UInt32) = UInt32.ofNat 16 from rfl, toNat_field word (by omega)]
    omega
  have hfc : ((word >>> 24) &&& 0xff).toNat = c.toNat := by
    rw [show (24 : UInt32) = UInt32.ofNat 24 from rfl, toNat_field word (by omega)]
    omega
  have hfo : (word &&& 0x7f).toNat = o.toNat := by
    rw [UInt32.toNat_and, show (0x7f : UInt32).toNat = 2 ^ 7 - 1 from rfl,
      Nat.and_two_pow_sub_one_eq_mod]
    omega
  have hfk : ((word >>> 15) &&& 1).toNat = k.toNat := by
    rw [UInt32.toNat_and, UInt32.toNat_shiftRight, show (15 : UInt32).toNat % 32 = 15 from rfl,
      Nat.shiftRight_eq_div_pow, show (1 : UInt32).toNat = 2 ^ 1 - 1 from rfl,
      Nat.and_two_pow_sub_one_eq_mod]
    omega
  simp only [Decoded.new, Decoded.mk.injEq, hfb, hfc, and_true]
  refine ⟨?_, ?_, ?_, ?_, ?_⟩
  · exact UInt8.toNat_inj.mp (by rw [UInt32.toNat_toUInt8, hfo]; omega)
  · exact UInt16.toNat_inj.mp (by rw [UInt32.toNat_toUInt16, hfa, UInt8.toNat_toUInt16]; omega)
  · exact UInt16.toNat_inj.mp (by rw [UInt32.toNat_toUInt16, hfb, UInt8.toNat_toUInt16]; omega)
  · exact UInt16.toNat_inj.mp (by rw [UInt32.toNat_toUInt16, hfc, UInt8.toNat_toUInt16]; omega)
  · cases k
    · rw [show (word >>> 15) &&& 1 = 0 from UInt32.toNat_inj.mp hfk]
      rfl
    · rw [show (word >>> 15) &&& 1 = 1 from UInt32.toNat_inj.mp hfk]
      rfl

/-! ### The reference compiler -/

/-- The operators `OPR_ADD` to `OPR_SHR`. -/
inductive BinOpr where
  | add | sub | mul | mod | pow | div | idiv | band | bor | bxor | shl | shr
  deriving DecidableEq, Repr

/-- The place of an operator in the order of the opcodes and of the events. -/
def BinOpr.index : BinOpr → UInt8
  | .add => 0 | .sub => 1 | .mul => 2 | .mod => 3 | .pow => 4 | .div => 5 | .idiv => 6
  | .band => 7 | .bor => 8 | .bxor => 9 | .shl => 10 | .shr => 11

/-- `OP_ADDI`. -/
def opAddI : UInt8 := 21

/-- `OP_SHLI`: the two shifts by a constant change places between the versions. -/
def opShlI : LuaProfile → UInt8
  | .lua54 => 33
  | .lua55 => 32

/-- `OP_SHRI`. -/
def opShrI : LuaProfile → UInt8
  | .lua54 => 32
  | .lua55 => 33

/-- `binopr2op` from `OP_ADDK` on. -/
def BinOpr.opK (opr : BinOpr) : UInt8 := 22 + opr.index

/-- `binopr2op` from `OP_ADD` on. -/
def BinOpr.op (opr : BinOpr) : UInt8 := 34 + opr.index

/-- `binopr2TM`, from `TM_ADD` on. -/
def BinOpr.event (opr : BinOpr) : UInt8 := 6 + opr.index

/-- `OP_MMBIN`, `OP_MMBINI` and `OP_MMBINK`. -/
def opMmBin : UInt8 := 46

@[inherit_doc opMmBin]
def opMmBinI : UInt8 := 47

@[inherit_doc opMmBin]
def opMmBinK : UInt8 := 48

/-- An operand: what is in a register, or a numeral. -/
inductive Expression where
  | register (register : UInt8)
  | integer (value : Int64)
  | float (bits : UInt64)
  deriving DecidableEq, Repr

/-- What the compiler decides about numerals: the register it loads one into when it has to, and the
    place in the constants that it gives one, if that is not behind `MAXINDEXRK`. -/
structure FuncState where
  loaded : Expression → UInt8
  constantIndex : Expression → Option UInt8

namespace FuncState

variable (fs : FuncState) (profile : LuaProfile) (target : UInt8)

/-- `tonumeral`. -/
def tonumeral : Expression → Bool
  | .register _ => false
  | _ => true

/-- `fitsC`. -/
def fitsC (i : Int) : Prop := -127 ≤ i ∧ i ≤ 128

instance (i : Int) : Decidable (fitsC i) := inferInstanceAs (Decidable (_ ∧ _))

/-- `int2sC`. -/
def int2sC (i : Int) : UInt8 := UInt8.ofNat (i + 127).toNat

/-- `luaK_exp2anyreg`. -/
def exp2anyreg : Expression → UInt8
  | .register register => register
  | e => fs.loaded e

/-- `luaK_exp2K` of a numeral. -/
def exp2K : Expression → Option UInt8
  | .register _ => none
  | e => fs.constantIndex e

/-- `finishbinexpval`; the register of the result is filled in later. -/
def finishbinexpval (e₁ : Expression) (op v₂ : UInt8) (flip : Bool) (mmop event : UInt8) :
    UInt32 × UInt32 :=
  (createABCk op target (fs.exp2anyreg e₁) v₂ false,
    createABCk mmop (fs.exp2anyreg e₁) v₂ event flip)

/-- `codebinexpval`. -/
def codebinexpval (opr : BinOpr) (e₁ e₂ : Expression) : UInt32 × UInt32 :=
  fs.finishbinexpval target e₁ opr.op (fs.exp2anyreg e₂) false opMmBin opr.event

/-- `codebini` with the immediate operand `i`. -/
def codebini (op : UInt8) (e₁ : Expression) (i : Int) (flip : Bool) (event : UInt8) :
    UInt32 × UInt32 :=
  fs.finishbinexpval target e₁ op (int2sC i) flip opMmBinI event

/-- `codebinK` with the constant at `k`. -/
def codebinK (opr : BinOpr) (e₁ : Expression) (k : UInt8) (flip : Bool) : UInt32 × UInt32 :=
  fs.finishbinexpval target e₁ opr.opK k flip opMmBinK opr.event

/-- The integer operand that `finishbinexpneg` can negate. -/
def negatable : Expression → Option Int
  | .integer value => if fitsC value.toInt ∧ fitsC (-value.toInt) then some value.toInt else none
  | _ => none

/-- `finishbinexpneg` with the operand `i`: the operation gets it negated, the metamethod as it
    was. -/
def finishbinexpneg (e₁ : Expression) (i : Int) (op event : UInt8) : UInt32 × UInt32 :=
  ((fs.finishbinexpval target e₁ op (int2sC (-i)) false opMmBinI event).1,
    createABCk opMmBinI (fs.exp2anyreg e₁) (int2sC i) event false)

/-- `codebinNoK`. -/
def codebinNoK (opr : BinOpr) (e₁ e₂ : Expression) (flip : Bool) : UInt32 × UInt32 :=
  if flip then fs.codebinexpval target opr e₂ e₁ else fs.codebinexpval target opr e₁ e₂

/-- `codearith`. -/
def codearith (opr : BinOpr) (e₁ e₂ : Expression) (flip : Bool) : UInt32 × UInt32 :=
  match fs.exp2K e₂ with
  | some k => fs.codebinK target opr e₁ k flip
  | none => fs.codebinNoK target opr e₁ e₂ flip

/-- `isSCint`: the value, if it fits. -/
def isSCint : Expression → Option Int
  | .integer value => if fitsC value.toInt then some value.toInt else none
  | _ => none

/-- `codecommutative` behind the exchange of its operands. -/
def codecommutativeFrom (opr : BinOpr) (e₁ e₂ : Expression) (flip : Bool) : UInt32 × UInt32 :=
  if opr = .add then
    match isSCint e₂ with
    | some i => fs.codebini target opAddI e₁ i flip BinOpr.add.event
    | none => fs.codearith target opr e₁ e₂ flip
  else fs.codearith target opr e₁ e₂ flip

/-- `codecommutative`. -/
def codecommutative (opr : BinOpr) (e₁ e₂ : Expression) : UInt32 × UInt32 :=
  if tonumeral e₁ then fs.codecommutativeFrom target opr e₂ e₁ true
  else fs.codecommutativeFrom target opr e₁ e₂ false

/-- `VKINT`. -/
def isInteger : Expression → Bool
  | .integer _ => true
  | _ => false

/-- `codebitwise` behind the exchange of its operands. -/
def codebitwiseFrom (opr : BinOpr) (e₁ e₂ : Expression) (flip : Bool) : UInt32 × UInt32 :=
  match if isInteger e₂ then fs.exp2K e₂ else none with
  | some k => fs.codebinK target opr e₁ k flip
  | none => fs.codebinNoK target opr e₁ e₂ flip

/-- `codebitwise`. -/
def codebitwise (opr : BinOpr) (e₁ e₂ : Expression) : UInt32 × UInt32 :=
  if isInteger e₁ then fs.codebitwiseFrom target opr e₂ e₁ true
  else fs.codebitwiseFrom target opr e₁ e₂ false

/-- The shift to the left. -/
def codeshl (e₁ e₂ : Expression) : UInt32 × UInt32 :=
  match isSCint e₁ with
  | some i => fs.codebini target (opShlI profile) e₂ i true BinOpr.shl.event
  | none =>
    match negatable e₂ with
    | some i => fs.finishbinexpneg target e₁ i (opShrI profile) BinOpr.shl.event
    | none => fs.codebinexpval target .shl e₁ e₂

/-- `luaK_posfix` for arithmetic, where it does not fold the operation. -/
def luaKPosfix (opr : BinOpr) (e₁ e₂ : Expression) : UInt32 × UInt32 :=
  match opr with
  | .add | .mul => fs.codecommutative target opr e₁ e₂
  | .sub =>
    match negatable e₂ with
    | some i => fs.finishbinexpneg target e₁ i opAddI BinOpr.sub.event
    | none => fs.codearith target opr e₁ e₂ false
  | .div | .idiv | .mod | .pow => fs.codearith target opr e₁ e₂ false
  | .band | .bor | .bxor => fs.codebitwise target opr e₁ e₂
  | .shl => fs.codeshl profile target e₁ e₂
  | .shr =>
    match isSCint e₂ with
    | some i => fs.codebini target (opShrI profile) e₁ i false BinOpr.shr.event
    | none => fs.codebinexpval target opr e₁ e₂

end FuncState

/-! ### The check -/

/-- `OfficialTranslationErrorKind`. -/
inductive OfficialTranslationErrorKind where
  | invalidChunk | limitExceeded | allocationFailed
  deriving DecidableEq, Repr

/-- `OfficialTranslationError`. -/
structure OfficialTranslationError where
  kind : OfficialTranslationErrorKind
  prototype : ProtoId
  pc : Nat
  detail : String
  deriving DecidableEq, Repr

/-- The function `invalid`. -/
def invalid (id : ProtoId) (pc : Nat) (detail : String) : OfficialTranslationError :=
  ⟨.invalidChunk, id, pc, detail⟩

/-- The function `limited`. -/
def limited (id : ProtoId) (pc : Nat) (detail : String) : OfficialTranslationError :=
  ⟨.limitExceeded, id, pc, detail⟩

/-- `shift_left_immediate`. -/
def shiftLeftImmediate (profile : LuaProfile) : UInt8 := if profile = .lua55 then 32 else 33

/-- `shift_right_immediate`. -/
def shiftRightImmediate (profile : LuaProfile) : UInt8 := if profile = .lua55 then 33 else 32

/-- The event that the metamethod of an operation must have. -/
def arithmeticEvent (profile : LuaProfile) (primary adjunct : Decoded) : Option UInt16 :=
  match primary.opcode with
  | 21 => if primary.sc < 0 ∧ adjunct.c = 7 then some 7 else some 6
  | 22 | 34 => some 6
  | 23 | 35 => some 7
  | 24 | 36 => some 8
  | 25 | 37 => some 9
  | 26 | 38 => some 10
  | 27 | 39 => some 11
  | 28 | 40 => some 12
  | 29 | 41 => some 13
  | 30 | 42 => some 14
  | 31 | 43 => some 15
  | 44 => some 16
  | 45 => some 17
  | opcode =>
    if opcode = shiftLeftImmediate profile then some 16
    else if opcode = shiftRightImmediate profile then
      if primary.sc < 0 then some 16 else some 17
    else none

/-- `right_matches`. -/
def rightMatches (profile : LuaProfile) (primary adjunct : Decoded) : Prop :=
  if primary.opcode = 21 ∧ adjunct.c = 7
      ∨ primary.opcode = shiftRightImmediate profile ∧ primary.sc < 0 then
    adjunct.sb = -primary.sc
  else if primary.opcode ∈ [21, 32, 33] then adjunct.sb = primary.sc
  else adjunct.b = primary.c

instance (profile : LuaProfile) (primary adjunct : Decoded) :
    Decidable (rightMatches profile primary adjunct) := by
  unfold rightMatches
  infer_instance

/-- `flip_allowed`. -/
def flipAllowed (profile : LuaProfile) (primary : Decoded) : Prop :=
  primary.opcode ∈ [21, 22, 24, 29, 30, 31, 34, 36, 41, 42, 43]
    ∨ primary.opcode = shiftLeftImmediate profile

instance (profile : LuaProfile) (primary : Decoded) : Decidable (flipAllowed profile primary) :=
  inferInstanceAs (Decidable (_ ∨ _))

/-- The words do not fit together. -/
def mismatched (profile : LuaProfile) (primary adjunct : Decoded) (event : UInt16) : Prop :=
  adjunct.a ≠ primary.b
    ∨ ¬ rightMatches profile primary adjunct
    ∨ adjunct.c ≠ event
    ∨ adjunct.k ∧ ¬ flipAllowed profile primary
    ∨ primary.opcode = shiftLeftImmediate profile ∧ ¬ adjunct.k
    ∨ primary.opcode = shiftRightImmediate profile ∧ adjunct.k
    ∨ 34 ≤ primary.opcode ∧ adjunct.k

instance (profile : LuaProfile) (primary adjunct : Decoded) (event : UInt16) :
    Decidable (mismatched profile primary adjunct event) :=
  inferInstanceAs (Decidable (_ ∨ _ ∨ _ ∨ _ ∨ _ ∨ _ ∨ _))

/-- `validate_arithmetic_pair`. -/
def validateArithmeticPair (id : ProtoId) (profile : LuaProfile) (pc : Nat)
    (primary adjunct : Decoded) : Except OfficialTranslationError Unit :=
  match arithmeticEvent profile primary adjunct with
  | none => .error (invalid id pc "算術 opcode 無 adjunct 契約")
  | some event =>
    if mismatched profile primary adjunct event then
      .error (invalid id pc "MMBIN operand/metamethod/flip 配對無效")
    else .ok ()

/-- The opcode that `validate_code` expects behind an arithmetic word. -/
def expectedAdjunct (opcode : UInt8) : UInt8 :=
  if opcode ∈ [21, 32, 33] then 47 else if opcode < 34 then 48 else 46

/-- What `validate_code` checks of an arithmetic word, `21..=45`, and the one behind it. -/
def acceptPair (id : ProtoId) (profile : LuaProfile) (pc : Nat) (primary adjunct : Decoded) :
    Except OfficialTranslationError Unit :=
  if adjunct.opcode ≠ expectedAdjunct primary.opcode then
    .error (invalid id pc "附加 opcode 或 EXTRAARG 配對無效")
  else validateArithmeticPair id profile pc primary adjunct

/-! ### The translation -/

/-- `arithmetic_operation`. -/
def arithmeticOperation (opcode : UInt8) : Option BinaryOperation :=
  match opcode with
  | 21 | 22 | 34 => some .add
  | 23 | 35 => some .subtract
  | 24 | 36 => some .multiply
  | 25 | 37 => some .modulo
  | 26 | 38 => some .power
  | 27 | 39 => some .divide
  | 28 | 40 => some .floorDivide
  | 29 | 41 => some .ampersand
  | 30 | 42 => some .pipe
  | 31 | 43 => some .bitXor
  | 44 => some .shiftLeft
  | 45 => some .shiftRight
  | _ => none

/-- What the translation of a prototype has decided when it comes to a word. -/
structure Place where
  id : ProtoId
  pc : Nat
  guestBase : Register
  scratch : Register
  maxConstants : Nat
  /-- The error of the reservation for one more constant, if it fails. -/
  reservation : Option OfficialTranslationError

/-- `append_constant`: the number of the new constant, and the constants with it. -/
def appendConstant (place : Place) (constants : List BytecodeConstant) (value : BytecodeConstant) :
    Except OfficialTranslationError (ConstId × List BytecodeConstant) :=
  if place.maxConstants ≤ constants.length then
    .error (limited place.id place.pc "轉譯常數超過 P05 限制")
  else if 2 ^ 32 ≤ constants.length then
    .error (invalid place.id place.pc "轉譯常數 ID 溢位")
  else
    match place.reservation with
    | some e => .error e
    | none => .ok (UInt32.ofNat constants.length, constants ++ [value])

/-- The register of the frame that an official register is kept in. -/
def Place.guest (place : Place) (register : UInt16) : Register := place.guestBase + register

/-- The operation and the immediate operand of a word with a constant. -/
def immediateOperation (profile : LuaProfile) (decoded adjacent : Decoded) :
    BinaryOperation × Int :=
  let op := (arithmeticOperation decoded.opcode).getD
    (if decoded.opcode = shiftRightImmediate profile then .shiftRight else .shiftLeft)
  if decoded.opcode = 21 ∧ adjacent.c = 7 then (.subtract, -decoded.sc)
  else if decoded.opcode = shiftRightImmediate profile ∧ decoded.sc < 0 then
    (.shiftLeft, -decoded.sc)
  else if decoded.opcode = shiftLeftImmediate profile then (.shiftLeft, decoded.sc)
  else (op, decoded.sc)

/-- The constant operand of a word: one of the chunk, or a new one. -/
def operandConstant (place : Place) (constants : List BytecodeConstant) (decoded : Decoded)
    (value : Int) : Except OfficialTranslationError (ConstId × List BytecodeConstant) :=
  if 22 ≤ decoded.opcode ∧ decoded.opcode ≤ 31 then .ok (decoded.c.toUInt32, constants)
  else appendConstant place constants (.integer (Int64.ofInt value))

/-- The case `21..=45` of `translate_prototype`: the constants and the instructions. -/
def translateArithmetic (place : Place) (profile : LuaProfile) (constants : List BytecodeConstant)
    (decoded adjacent : Decoded) :
    Except OfficialTranslationError (List BytecodeConstant × List Instruction) :=
  if decoded.opcode < 34 then do
    let (op, value) := immediateOperation profile decoded adjacent
    let (constant, constants) ← operandConstant place constants decoded value
    let left := place.guest decoded.b
    let right := place.scratch
    .ok (constants, [.loadConst place.scratch constant,
      if adjacent.k then .binaryOp (place.guest decoded.a) op right left
      else .binaryOp (place.guest decoded.a) op left right])
  else
    let op := (arithmeticOperation decoded.opcode).getD
      (if decoded.opcode = shiftRightImmediate profile then .shiftRight else .shiftLeft)
    .ok (constants, [.binaryOp (place.guest decoded.a) op (place.guest decoded.b)
      (place.guest decoded.c)])

/-! ### Meaning -/

/-- The operation of an operator. -/
def BinOpr.operation : BinOpr → BinaryOperation
  | .add => .add | .sub => .subtract | .mul => .multiply | .mod => .modulo | .pow => .power
  | .div => .divide | .idiv => .floorDivide | .band => .ampersand | .bor => .pipe
  | .bxor => .bitXor | .shl => .shiftLeft | .shr => .shiftRight

section Meaning

variable {V : Type} (load : BytecodeConstant → V)

/-- The operation that translated code performs, with the values of its operands. -/
def performed (constants : List BytecodeConstant) :
    List Instruction → (Register → V) → Option (BinaryOperation × V × V)
  | .loadConst dest constant :: rest, registers =>
    match constants[constant.toNat]? with
    | some value =>
      performed constants rest fun register =>
        if register = dest then load value else registers register
    | none => none
  | .binaryOp _ op left right :: _, registers => some (op, registers left, registers right)
  | _, _ => none

/-- The value of an operand in a frame. -/
def Expression.value (place : Place) (registers : Register → V) : Expression → V
  | .register index => registers (place.guest index.toUInt16)
  | .integer value => load (.integer value)
  | .float bits => load (.floatBits bits)

/-- The numeral is where the compiler has put it: in its register, and in its place among the
    constants. -/
structure Provided (fs : FuncState) (place : Place) (constants : List BytecodeConstant)
    (registers : Register → V) (e : Expression) : Prop where
  loaded : registers (place.guest (fs.exp2anyreg e).toUInt16) = e.value load place registers
  constant : ∀ k, fs.exp2K e = some k →
    ∃ value, constants[k.toNat]? = some value ∧ load value = e.value load place registers

end Meaning

/-- The translation of a pair performs the operation on the operands, in their order. -/
def Computes (profile : LuaProfile) (fs : FuncState) (opr : BinOpr) (e₁ e₂ : Expression)
    (primary adjunct : Decoded) : Prop :=
  ∀ (V : Type) (load : BytecodeConstant → V) (place : Place) (constants : List BytecodeConstant)
    (registers : Register → V),
    (∀ register : UInt8, place.guest register.toUInt16 ≠ place.scratch) →
    Provided load fs place constants registers e₁ →
    Provided load fs place constants registers e₂ →
    ∀ constants' code,
      translateArithmetic place profile constants primary adjunct = .ok (constants', code) →
      performed load constants' code registers
        = some (opr.operation, e₁.value load place registers, e₂.value load place registers)

/-- A constant by which the check does not expect the reference compiler to operate: one that is
    not positive, behind a minus or a left shift, and a negative one behind a right shift. -/
def Unsupported (opr : BinOpr) (e₁ e₂ : Expression) : Prop :=
  match opr with
  | .sub => ∃ i ∈ FuncState.negatable e₂, i ≤ 0
  | .shl => FuncState.isSCint e₁ = none ∧ ∃ i ∈ FuncState.negatable e₂, i ≤ 0
  | .shr => ∃ i ∈ FuncState.isSCint e₂, i < 0
  | _ => False

/-! ### Operations of words -/

/-- An operand of a word. -/
inductive Operand where
  | register (register : UInt16)
  | immediate (value : Int)
  | constant (index : UInt16)
  deriving DecidableEq, Repr

/-- An operation with its operands. -/
structure Operation where
  opr : BinOpr
  left : Operand
  right : Operand
  deriving DecidableEq, Repr

/-- The operators in the order of their opcodes. -/
def oprAt : Nat → Option BinOpr
  | 0 => some .add | 1 => some .sub | 2 => some .mul | 3 => some .mod | 4 => some .pow
  | 5 => some .div | 6 => some .idiv | 7 => some .band | 8 => some .bor | 9 => some .bxor
  | 10 => some .shl | 11 => some .shr | _ => none

/-- The operation that the first word of a pair stands for. -/
def Decoded.operation (profile : LuaProfile) (word : Decoded) : Option Operation :=
  if word.opcode = opAddI then some ⟨.add, .register word.b, .immediate word.sc⟩
  else if word.opcode = opShrI profile then some ⟨.shr, .register word.b, .immediate word.sc⟩
  else if word.opcode = opShlI profile then some ⟨.shl, .immediate word.sc, .register word.b⟩
  else if word.opcode < 32 then
    (oprAt (word.opcode.toNat - 22)).map fun opr => ⟨opr, .register word.b, .constant word.c⟩
  else (oprAt (word.opcode.toNat - 34)).map fun opr => ⟨opr, .register word.b, .register word.c⟩

/-- The operand that a metamethod gets beside its register. -/
def Decoded.metaOperand (word : Decoded) : Operand :=
  if word.opcode = opMmBinI then .immediate word.sb
  else if word.opcode = opMmBinK then .constant word.b
  else .register word.b

/-- The operation that a metamethod is called for. -/
def Decoded.metaOperation (word : Decoded) : Option Operation :=
  (oprAt (word.c.toNat - 6)).map fun opr =>
    if word.k then ⟨opr, word.metaOperand, .register word.a⟩
    else ⟨opr, .register word.a, word.metaOperand⟩

/-- The operators that do not care for the order of their operands. -/
def BinOpr.commutative : BinOpr → Bool
  | .add | .mul | .band | .bor | .bxor => true
  | _ => false

/-- The operations are the same one, written in two ways. -/
inductive Operation.Same : Operation → Operation → Prop
  | refl (operation : Operation) : Same operation operation
  | flipped {opr : BinOpr} (left right : Operand) (h : opr.commutative) :
    Same ⟨opr, left, right⟩ ⟨opr, right, left⟩
  | subtracted (register : UInt16) (value : Int) :
    Same ⟨.add, .register register, .immediate value⟩
      ⟨.sub, .register register, .immediate (-value)⟩
  | shifted (register : UInt16) (value : Int) :
    Same ⟨.shr, .register register, .immediate value⟩
      ⟨.shl, .register register, .immediate (-value)⟩

/-- The words of a pair are about the same operation. -/
def Agrees (profile : LuaProfile) (primary adjunct : Decoded) : Prop :=
  ∃ operation call, primary.operation profile = some operation
    ∧ adjunct.metaOperation = some call ∧ operation.Same call

/-- A subtraction of a constant whose metamethod gets its operands in the wrong order. -/
def FlippedSubtraction (primary adjunct : Decoded) : Prop :=
  primary.opcode = opAddI ∧ primary.sc < 0 ∧ adjunct.opcode = opMmBinI ∧ adjunct.a = primary.b
    ∧ adjunct.sb = -primary.sc ∧ adjunct.c = 7 ∧ adjunct.k

/-! ### Which pairs are accepted -/

theorem acceptPair_eq_ok {id : ProtoId} {profile : LuaProfile} {pc : Nat}
    {primary adjunct : Decoded} :
    acceptPair id profile pc primary adjunct = .ok () ↔
      adjunct.opcode = expectedAdjunct primary.opcode
        ∧ ∃ event, arithmeticEvent profile primary adjunct = some event
          ∧ ¬ mismatched profile primary adjunct event := by
  unfold acceptPair validateArithmeticPair
  split
  · next h => simp [h]
  · next h =>
    rw [Decidable.not_not] at h
    split
    · next hevent => simp [hevent]
    · next event hevent =>
      split
      · next hmismatch => simp [hevent, hmismatch]
      · next hmatch => simp [h, hevent, hmatch]

/-- The opcodes with an event are the arithmetic ones. -/
theorem opcode_of_event {profile : LuaProfile} {primary adjunct : Decoded} {event : UInt16}
    (h : arithmeticEvent profile primary adjunct = some event) :
    21 ≤ primary.opcode.toNat ∧ primary.opcode.toNat ≤ 45 := by
  unfold arithmeticEvent at h
  split at h
  all_goals first
    | (next heq => rw [heq]; exact ⟨by decide, by decide⟩)
    | skip
  by_cases hleft : primary.opcode = shiftLeftImmediate profile
  · rw [hleft]
    cases profile <;> exact ⟨by decide, by decide⟩
  · rw [if_neg hleft] at h
    by_cases hright : primary.opcode = shiftRightImmediate profile
    · rw [hright]
      cases profile <;> exact ⟨by decide, by decide⟩
    · rw [if_neg hright] at h
      cases h

section Accepted

variable {id : ProtoId} {profile : LuaProfile} {pc : Nat} {primary adjunct : Decoded}

/-- A pair of two registers. -/
theorem acceptPair_register {opr : BinOpr} (h : primary.opcode = opr.op) :
    acceptPair id profile pc primary adjunct = .ok () ↔
      adjunct.opcode = opMmBin ∧ adjunct.a = primary.b ∧ adjunct.b = primary.c
        ∧ adjunct.c = opr.event.toUInt16 ∧ adjunct.k = false := by
  rw [acceptPair_eq_ok]
  cases opr <;> cases profile <;>
    simp [h, expectedAdjunct, arithmeticEvent, mismatched, rightMatches, flipAllowed, BinOpr.op,
      BinOpr.index, BinOpr.event, shiftLeftImmediate, shiftRightImmediate, opMmBin]

/-- A pair with a constant of the chunk. -/
theorem acceptPair_constant {opr : BinOpr} (hopr : opr.index < 10) (h : primary.opcode = opr.opK) :
    acceptPair id profile pc primary adjunct = .ok () ↔
      adjunct.opcode = opMmBinK ∧ adjunct.a = primary.b ∧ adjunct.b = primary.c
        ∧ adjunct.c = opr.event.toUInt16 ∧ (adjunct.k → opr.commutative) := by
  rw [acceptPair_eq_ok]
  cases opr <;> cases profile <;>
    simp_all [expectedAdjunct, arithmeticEvent, mismatched, rightMatches, flipAllowed, BinOpr.opK,
      BinOpr.index, BinOpr.event, shiftLeftImmediate, shiftRightImmediate, opMmBinK,
      BinOpr.commutative]

/-- A sum or a difference with a small constant. -/
theorem acceptPair_addI (h : primary.opcode = opAddI) :
    acceptPair id profile pc primary adjunct = .ok () ↔
      adjunct.opcode = opMmBinI ∧ adjunct.a = primary.b
        ∧ (adjunct.c = 7 ∧ primary.sc < 0 ∧ adjunct.sb = -primary.sc
          ∨ adjunct.c = 6 ∧ adjunct.sb = primary.sc) := by
  rw [acceptPair_eq_ok]
  have hopcode : primary.opcode = 21 := h
  by_cases hsub : adjunct.c = 7
  · by_cases hneg : primary.sc < 0 <;> cases profile <;>
      simp [hopcode, hsub, hneg, expectedAdjunct, arithmeticEvent, mismatched, rightMatches,
        flipAllowed, shiftLeftImmediate, shiftRightImmediate, opMmBinI]
  · cases profile <;>
      simp [hopcode, hsub, expectedAdjunct, arithmeticEvent, mismatched, rightMatches,
        flipAllowed, shiftLeftImmediate, shiftRightImmediate, opMmBinI, and_comm]

/-- A small constant, shifted to the left. -/
theorem acceptPair_shlI (h : primary.opcode = opShlI profile) :
    acceptPair id profile pc primary adjunct = .ok () ↔
      adjunct.opcode = opMmBinI ∧ adjunct.a = primary.b ∧ adjunct.c = 16
        ∧ adjunct.sb = primary.sc ∧ adjunct.k = true := by
  rw [acceptPair_eq_ok]
  cases profile <;>
    simp [h, opShlI, expectedAdjunct, arithmeticEvent, mismatched, rightMatches, flipAllowed,
      shiftLeftImmediate, shiftRightImmediate, opMmBinI] <;>
    grind

/-- A shift by a small constant. -/
theorem acceptPair_shrI (h : primary.opcode = opShrI profile) :
    acceptPair id profile pc primary adjunct = .ok () ↔
      adjunct.opcode = opMmBinI ∧ adjunct.a = primary.b ∧ adjunct.k = false
        ∧ (primary.sc < 0 ∧ adjunct.c = 16 ∧ adjunct.sb = -primary.sc
          ∨ 0 ≤ primary.sc ∧ adjunct.c = 17 ∧ adjunct.sb = primary.sc) := by
  rw [acceptPair_eq_ok]
  by_cases hneg : primary.sc < 0
  · cases profile <;>
      simp [h, hneg, opShrI, expectedAdjunct, arithmeticEvent, mismatched, rightMatches,
        flipAllowed, shiftLeftImmediate, shiftRightImmediate, opMmBinI] <;>
      grind
  · cases profile <;>
      simp [h, hneg, opShrI, expectedAdjunct, arithmeticEvent, mismatched, rightMatches,
        flipAllowed, shiftLeftImmediate, shiftRightImmediate, opMmBinI] <;>
      grind

end Accepted

/-! ### Accepted pairs fit together -/

theorem exists_oprAt {n : Nat} (h : n < 12) : ∃ opr, oprAt n = some opr ∧ opr.index.toNat = n := by
  have hall : ∀ n < 12, (oprAt n).map (fun opr => opr.index.toNat) = some n := by decide
  obtain ⟨opr, hopr, hindex⟩ := Option.map_eq_some_iff.mp (hall n h)
  exact ⟨opr, hopr, hindex⟩

/-- The arithmetic opcodes. -/
theorem opcode_cases (profile : LuaProfile) {opcode : UInt8} (hlow : 21 ≤ opcode.toNat)
    (hhigh : opcode.toNat ≤ 45) :
    opcode = opAddI ∨ opcode = opShlI profile ∨ opcode = opShrI profile
      ∨ (∃ opr : BinOpr, opr.index < 10 ∧ opcode = opr.opK) ∨ ∃ opr : BinOpr, opcode = opr.op := by
  by_cases hadd : opcode.toNat = 21
  · exact .inl (UInt8.toNat_inj.mp hadd)
  by_cases hconstant : opcode.toNat < 32
  · obtain ⟨opr, -, hindex⟩ := exists_oprAt (n := opcode.toNat - 22) (by omega)
    refine .inr (.inr (.inr (.inl ⟨opr, ?_, ?_⟩)))
    · rw [UInt8.lt_iff_toNat_lt, hindex]
      show opcode.toNat - 22 < 10
      omega
    · refine UInt8.toNat_inj.mp ?_
      rw [BinOpr.opK, UInt8.toNat_add, hindex]
      show _ = (22 + _) % 256
      omega
  by_cases hshift : opcode.toNat < 34
  · have hopcode : opcode = 32 ∨ opcode = 33 := by
      rw [← UInt8.toNat_inj, ← UInt8.toNat_inj]
      show opcode.toNat = 32 ∨ opcode.toNat = 33
      omega
    cases profile with
    | lua54 => exact hopcode.elim (fun h => .inr (.inr (.inl h))) fun h => .inr (.inl h)
    | lua55 => exact hopcode.elim (fun h => .inr (.inl h)) fun h => .inr (.inr (.inl h))
  · obtain ⟨opr, -, hindex⟩ := exists_oprAt (n := opcode.toNat - 34) (by omega)
    refine .inr (.inr (.inr (.inr ⟨opr, UInt8.toNat_inj.mp ?_⟩)))
    rw [BinOpr.op, UInt8.toNat_add, hindex]
    show _ = (34 + _) % 256
    omega

section Agreement

variable {id : ProtoId} {profile : LuaProfile} {pc : Nat} {primary adjunct : Decoded}

theorem operation_register {opr : BinOpr} (h : primary.opcode = opr.op) :
    primary.operation profile = some ⟨opr, .register primary.b, .register primary.c⟩ := by
  cases opr <;> cases profile <;> simp [Decoded.operation, h, BinOpr.op, BinOpr.index, opAddI,
    opShrI, opShlI, oprAt]

theorem operation_constant {opr : BinOpr} (hopr : opr.index < 10) (h : primary.opcode = opr.opK) :
    primary.operation profile = some ⟨opr, .register primary.b, .constant primary.c⟩ := by
  cases opr <;> cases profile <;> simp_all [Decoded.operation, BinOpr.opK, BinOpr.index, opAddI,
    opShrI, opShlI, oprAt]

theorem operation_addI (h : primary.opcode = opAddI) :
    primary.operation profile = some ⟨.add, .register primary.b, .immediate primary.sc⟩ := by
  rw [Decoded.operation, if_pos h]

theorem operation_shrI (h : primary.opcode = opShrI profile) :
    primary.operation profile = some ⟨.shr, .register primary.b, .immediate primary.sc⟩ := by
  cases profile <;> simp [Decoded.operation, h, opAddI, opShrI]

theorem operation_shlI (h : primary.opcode = opShlI profile) :
    primary.operation profile = some ⟨.shl, .immediate primary.sc, .register primary.b⟩ := by
  cases profile <;> simp [Decoded.operation, h, opAddI, opShrI, opShlI]

/-- The operation of a metamethod with the event of an operator. -/
theorem metaOperation_of_event (opr : BinOpr) (h : adjunct.c = opr.event.toUInt16) :
    adjunct.metaOperation = some
      (if adjunct.k then ⟨opr, adjunct.metaOperand, .register adjunct.a⟩
      else ⟨opr, .register adjunct.a, adjunct.metaOperand⟩) := by
  have hopr : oprAt (adjunct.c.toNat - 6) = some opr := by
    rw [h]
    cases opr <;> rfl
  rw [Decoded.metaOperation, hopr]
  rfl

/-- What is accepted fits together, but for a difference whose operands are flipped. -/
theorem agrees_of_accept (h : acceptPair id profile pc primary adjunct = .ok ())
    (hflip : ¬ FlippedSubtraction primary adjunct) : Agrees profile primary adjunct := by
  obtain ⟨-, event, hevent, -⟩ := acceptPair_eq_ok.mp h
  obtain ⟨hlow, hhigh⟩ := opcode_of_event hevent
  obtain hadd | hshl | hshr | ⟨opr, hopr, hconstant⟩ | ⟨opr, hregister⟩ :=
    opcode_cases profile hlow hhigh
  · obtain ⟨hopcode, ha, ⟨hc, hneg, hsb⟩ | ⟨hc, hsb⟩⟩ := (acceptPair_addI hadd).mp h
    · have hk : adjunct.k = false := by
        rw [← Bool.not_eq_true]
        exact fun hk => hflip ⟨hadd, hneg, hopcode, ha, hsb, hc, hk⟩
      refine ⟨_, _, operation_addI hadd, metaOperation_of_event .sub hc, ?_⟩
      rw [hk, ha, Decoded.metaOperand, if_pos hopcode, hsb]
      exact .subtracted _ _
    · refine ⟨_, _, operation_addI hadd, metaOperation_of_event .add hc, ?_⟩
      rw [ha, Decoded.metaOperand, if_pos hopcode, hsb]
      split
      · exact .flipped _ _ rfl
      · exact .refl _
  · obtain ⟨hopcode, ha, hc, hsb, hk⟩ := (acceptPair_shlI hshl).mp h
    refine ⟨_, _, operation_shlI hshl, metaOperation_of_event .shl hc, ?_⟩
    rw [hk, ha, Decoded.metaOperand, if_pos hopcode, hsb]
    exact .refl _
  · obtain ⟨hopcode, ha, hk, ⟨-, hc, hsb⟩ | ⟨-, hc, hsb⟩⟩ := (acceptPair_shrI hshr).mp h
    · refine ⟨_, _, operation_shrI hshr, metaOperation_of_event .shl hc, ?_⟩
      rw [hk, ha, Decoded.metaOperand, if_pos hopcode, hsb]
      exact .shifted _ _
    · refine ⟨_, _, operation_shrI hshr, metaOperation_of_event .shr hc, ?_⟩
      rw [hk, ha, Decoded.metaOperand, if_pos hopcode, hsb]
      exact .refl _
  · obtain ⟨hopcode, ha, hb, hc, hk⟩ := (acceptPair_constant hopr hconstant).mp h
    refine ⟨_, _, operation_constant hopr hconstant, metaOperation_of_event opr hc, ?_⟩
    have hoperand : adjunct.metaOperand = .constant primary.c := by
      rw [Decoded.metaOperand, hopcode, hb]
      rfl
    rw [ha, hoperand]
    split
    · next hk' => exact .flipped _ _ (hk hk')
    · exact .refl _
  · obtain ⟨hopcode, ha, hb, hc, hk⟩ := (acceptPair_register hregister).mp h
    refine ⟨_, _, operation_register hregister, metaOperation_of_event opr hc, ?_⟩
    have hoperand : adjunct.metaOperand = .register primary.c := by
      rw [Decoded.metaOperand, hopcode, hb]
      rfl
    rw [ha, hk, hoperand]
    exact .refl _

/-- A flipped difference is accepted. -/
theorem accept_of_flipped (h : FlippedSubtraction primary adjunct) :
    acceptPair id profile pc primary adjunct = .ok () := by
  obtain ⟨hopcode, hneg, hadjunct, ha, hsb, hc, -⟩ := h
  exact (acceptPair_addI hopcode).mpr ⟨hadjunct, ha, .inl ⟨hc, hneg, hsb⟩⟩

/-- A flipped difference does not fit together. -/
theorem not_agrees_of_flipped (h : FlippedSubtraction primary adjunct) :
    ¬ Agrees profile primary adjunct := by
  obtain ⟨hopcode, -, hadjunct, ha, hsb, hc, hk⟩ := h
  rintro ⟨operation, call, hoperation, hcall, hsame⟩
  rw [operation_addI hopcode, Option.some.injEq] at hoperation
  rw [metaOperation_of_event .sub hc, hk, if_pos rfl, Decoded.metaOperand,
    if_pos hadjunct, Option.some.injEq] at hcall
  subst hoperation hcall
  cases hsame

end Agreement

/-! ### What translated pairs perform -/

section Performed

variable {V : Type} {load : BytecodeConstant → V} {place : Place} {profile : LuaProfile}
  {constants constants' : List BytecodeConstant} {code : List Instruction} {primary adjunct : Decoded}
  {registers : Register → V}

theorem appendConstant_eq_ok {value : BytecodeConstant} {id : ConstId}
    (h : appendConstant place constants value = .ok (id, constants')) :
    constants'[id.toNat]? = some value := by
  unfold appendConstant at h
  split at h
  · cases h
  split at h
  · cases h
  next hlength =>
    split at h
    · cases h
    · cases h
      rw [UInt32.toNat_ofNat_of_lt' (by omega : constants.length < 2 ^ 32)]
      simp

/-- A pair of two registers. -/
theorem performed_register {opr : BinOpr} (h : primary.opcode = opr.op)
    (hcode : translateArithmetic place profile constants primary adjunct = .ok (constants', code)) :
    performed load constants' code registers
      = some (opr.operation, registers (place.guest primary.b),
        registers (place.guest primary.c)) := by
  have hop : (arithmeticOperation primary.opcode).getD
      (if primary.opcode = shiftRightImmediate profile then .shiftRight else .shiftLeft)
      = opr.operation := by
    rw [h]
    cases opr <;> rfl
  have hlarge : ¬ primary.opcode < 34 := by
    rw [h]
    cases opr <;> decide
  rw [translateArithmetic, if_neg hlarge, hop] at hcode
  cases hcode
  rfl

/-- A pair with a constant operand. -/
theorem performed_operand {value : BytecodeConstant} {id : ConstId}
    (hscratch : place.guest primary.b ≠ place.scratch) (h : primary.opcode < 34)
    (hconstant : operandConstant place constants primary (immediateOperation profile primary
      adjunct).2 = .ok (id, constants'))
    (hvalue : constants'[id.toNat]? = some value)
    (hcode : translateArithmetic place profile constants primary adjunct = .ok (constants', code)) :
    performed load constants' code registers
      = some ((immediateOperation profile primary adjunct).1,
        if adjunct.k then (load value, registers (place.guest primary.b))
        else (registers (place.guest primary.b), load value)) := by
  rw [translateArithmetic, if_pos h] at hcode
  simp only [hconstant, bind, Except.bind, Except.ok.injEq, Prod.mk.injEq, true_and] at hcode
  subst hcode
  cases adjunct.k <;> simp [performed, hvalue, hscratch]

/-- A pair with a constant of the chunk. -/
theorem performed_constant {opr : BinOpr} {k : UInt8} {value : BytecodeConstant}
    (hopr : opr.index < 10) (h : primary.opcode = opr.opK) (hc : primary.c = k.toUInt16)
    (hscratch : place.guest primary.b ≠ place.scratch) (hvalue : constants[k.toNat]? = some value)
    (hcode : translateArithmetic place profile constants primary adjunct = .ok (constants', code)) :
    performed load constants' code registers
      = some (opr.operation, if adjunct.k then (load value, registers (place.guest primary.b))
        else (registers (place.guest primary.b), load value)) := by
  have hop : (immediateOperation profile primary adjunct).1 = opr.operation := by
    cases opr <;> cases profile <;> simp_all [immediateOperation, BinOpr.opK, BinOpr.index,
      arithmeticOperation, shiftRightImmediate, shiftLeftImmediate, BinOpr.operation]
  have hsmall : primary.opcode < 34 := by
    rw [h]
    cases opr <;> simp_all [BinOpr.opK, BinOpr.index]
  have hconstant : operandConstant place constants primary
      (immediateOperation profile primary adjunct).2 = .ok (primary.c.toUInt32, constants) := by
    rw [operandConstant, if_pos]
    rw [h]
    cases opr <;> simp_all [BinOpr.opK, BinOpr.index]
  obtain rfl : constants = constants' := by
    rw [translateArithmetic, if_pos hsmall] at hcode
    simp only [hconstant, bind, Except.bind, Except.ok.injEq, Prod.mk.injEq] at hcode
    exact hcode.1
  rw [performed_operand hscratch hsmall hconstant (by rw [hc]; simpa using hvalue) hcode, hop]

/-- A pair with an immediate operand. -/
theorem performed_immediate {op : BinaryOperation} {value : Int} (h : primary.opcode < 34)
    (hnew : ¬ (22 ≤ primary.opcode ∧ primary.opcode ≤ 31))
    (hop : immediateOperation profile primary adjunct = (op, value))
    (hscratch : place.guest primary.b ≠ place.scratch)
    (hcode : translateArithmetic place profile constants primary adjunct = .ok (constants', code)) :
    performed load constants' code registers
      = some (op, if adjunct.k then
          (load (.integer (Int64.ofInt value)), registers (place.guest primary.b))
        else (registers (place.guest primary.b), load (.integer (Int64.ofInt value)))) := by
  have hconstant : operandConstant place constants primary
      (immediateOperation profile primary adjunct).2
      = appendConstant place constants (.integer (Int64.ofInt value)) := by
    rw [operandConstant, if_neg hnew, hop]
  rcases hrun : appendConstant place constants (.integer (Int64.ofInt value)) with e | ⟨id, more⟩
  · rw [translateArithmetic, if_pos h] at hcode
    simp only [hconstant, hrun, bind, Except.bind] at hcode
    cases hcode
  · rw [hrun] at hconstant
    obtain rfl : more = constants' := by
      rw [translateArithmetic, if_pos h] at hcode
      simp only [hconstant, bind, Except.bind, Except.ok.injEq, Prod.mk.injEq] at hcode
      exact hcode.1
    rw [performed_operand hscratch h hconstant (appendConstant_eq_ok hrun) hcode, hop]

end Performed

/-! ### Emitted pairs -/

/-- The check accepts the pair, and its translation performs the operation. -/
def Translated (id : ProtoId) (pc : Nat) (profile : LuaProfile) (fs : FuncState) (opr : BinOpr)
    (e₁ e₂ : Expression) (pair : UInt32 × UInt32) : Prop :=
  acceptPair id profile pc (Decoded.new pair.1) (Decoded.new pair.2) = .ok ()
    ∧ Computes profile fs opr e₁ e₂ (Decoded.new pair.1) (Decoded.new pair.2)

namespace FuncState

theorem int2sC_toNat {i : Int} (h : fitsC i) : ((int2sC i).toNat : Int) - 127 = i := by
  obtain ⟨hlow, hhigh⟩ := h
  rw [int2sC, UInt8.toNat_ofNat_of_lt' (by show (i + 127).toNat < 256; omega)]
  omega

theorem negatable_eq_some {e : Expression} {i : Int} (h : negatable e = some i) :
    ∃ value : Int64, e = .integer value ∧ i = value.toInt ∧ fitsC i ∧ fitsC (-i) := by
  unfold negatable at h
  split at h
  · next value =>
    split at h
    · next hfits =>
      cases h
      exact ⟨value, rfl, rfl, hfits⟩
    · cases h
  · cases h

theorem isSCint_eq_some {e : Expression} {i : Int} (h : isSCint e = some i) :
    ∃ value : Int64, e = .integer value ∧ i = value.toInt ∧ fitsC i := by
  unfold isSCint at h
  split at h
  · next value =>
    split at h
    · next hfits =>
      cases h
      exact ⟨value, rfl, rfl, hfits⟩
    · cases h
  · cases h

section Emitted

variable {id : ProtoId} {pc : Nat} {profile : LuaProfile} {fs : FuncState} {opr : BinOpr}
  {target : UInt8} {e₁ e₂ : Expression} {flip : Bool} {i : Int}

/-- The fields of a pair behind `finishbinexpval`. -/
theorem new_finishbinexpval (fs : FuncState) (target : UInt8) (e₁ : Expression)
    {op mmop : UInt8} (v₂ : UInt8) (flip : Bool) (event : UInt8) (hop : op < 128)
    (hmmop : mmop < 128) :
    Decoded.new (fs.finishbinexpval target e₁ op v₂ flip mmop event).1
        = ⟨op, target.toUInt16, (fs.exp2anyreg e₁).toUInt16, v₂.toUInt16, false,
          (fs.exp2anyreg e₁).toNat - 127, v₂.toNat - 127⟩
      ∧ Decoded.new (fs.finishbinexpval target e₁ op v₂ flip mmop event).2
        = ⟨mmop, (fs.exp2anyreg e₁).toUInt16, v₂.toUInt16, event.toUInt16, flip,
          v₂.toNat - 127, event.toNat - 127⟩ :=
  ⟨Decoded.new_createABCk hop _ _ _ _, Decoded.new_createABCk hmmop _ _ _ _⟩

theorem op_lt (opr : BinOpr) : opr.op < 128 := by cases opr <;> decide

theorem opK_lt (opr : BinOpr) : opr.opK < 128 := by cases opr <;> decide

/-- Two registers. -/
theorem translated_codebinexpval :
    Translated id pc profile fs opr e₁ e₂ (fs.codebinexpval target opr e₁ e₂) := by
  obtain ⟨hprimary, hadjunct⟩ := new_finishbinexpval fs target e₁ (fs.exp2anyreg e₂) false
    opr.event (op_lt opr) (show opMmBin < 128 by decide)
  rw [Translated, codebinexpval, hprimary, hadjunct]
  refine ⟨(acceptPair_register rfl).mpr ⟨rfl, rfl, rfl, rfl, rfl⟩, ?_⟩
  intro V load place constants registers hscratch h₁ h₂ constants' code hcode
  rw [performed_register rfl hcode, h₁.loaded, h₂.loaded]

/-- A constant of the chunk, with the operands in either order. -/
theorem translated_codebinK {k : UInt8} (hopr : opr.index < 10) (hk : fs.exp2K e₂ = some k)
    (hflip : flip → opr.commutative) :
    Translated id pc profile fs opr (if flip then e₂ else e₁) (if flip then e₁ else e₂)
      (fs.codebinK target opr e₁ k flip) := by
  obtain ⟨hprimary, hadjunct⟩ := new_finishbinexpval fs target e₁ k flip opr.event (opK_lt opr)
    (show opMmBinK < 128 by decide)
  rw [Translated, codebinK, hprimary, hadjunct]
  refine ⟨(acceptPair_constant hopr rfl).mpr ⟨rfl, rfl, rfl, rfl, hflip⟩, ?_⟩
  intro V load place constants registers hscratch h₁ h₂ constants' code hcode
  cases flip with
  | true =>
    have hregister : Provided load fs place constants registers e₁ := h₂
    obtain ⟨value, hvalue, hload⟩ := h₁.constant k hk
    rw [performed_constant hopr rfl rfl (hscratch _) hvalue hcode]
    simp only [if_true, hload, hregister.loaded]
  | false =>
    have hregister : Provided load fs place constants registers e₁ := h₁
    obtain ⟨value, hvalue, hload⟩ := h₂.constant k hk
    rw [performed_constant hopr rfl rfl (hscratch _) hvalue hcode]
    simp only [Bool.false_eq_true, if_false, hload, hregister.loaded]

/-- An immediate operand, with the operands in either order. -/
theorem computes_immediate {primary adjunct : Decoded} {value : Int64} (hk : adjunct.k = flip)
    (hb : primary.b = (fs.exp2anyreg e₁).toUInt16) (h : primary.opcode < 34)
    (hnew : ¬ (22 ≤ primary.opcode ∧ primary.opcode ≤ 31))
    (hop : immediateOperation profile primary adjunct = (opr.operation, value.toInt)) :
    Computes profile fs opr (if flip then .integer value else e₁)
      (if flip then e₁ else .integer value) primary adjunct := by
  intro V load place constants registers hscratch h₁ h₂ constants' code hcode
  have hscratch' : place.guest primary.b ≠ place.scratch := by
    rw [hb]
    exact hscratch _
  rw [performed_immediate h hnew hop hscratch' hcode, Int64.ofInt_toInt, hb, hk]
  cases flip with
  | true =>
    have hregister : Provided load fs place constants registers e₁ := h₂
    simp only [if_true, hregister.loaded]
    rfl
  | false =>
    have hregister : Provided load fs place constants registers e₁ := h₁
    simp only [Bool.false_eq_true, if_false, hregister.loaded]
    rfl

/-- A sum with a small constant. -/
theorem translated_addI (h : isSCint e₂ = some i) :
    Translated id pc profile fs .add (if flip then e₂ else e₁) (if flip then e₁ else e₂)
      (fs.codebini target opAddI e₁ i flip BinOpr.add.event) := by
  obtain ⟨value, rfl, rfl, hfits⟩ := isSCint_eq_some h
  obtain ⟨hprimary, hadjunct⟩ := new_finishbinexpval fs target e₁ (int2sC value.toInt) flip
    BinOpr.add.event (show opAddI < 128 by decide) (show opMmBinI < 128 by decide)
  rw [Translated, codebini, hprimary, hadjunct]
  refine ⟨(acceptPair_addI rfl).mpr ⟨rfl, rfl, .inr ⟨rfl, rfl⟩⟩, ?_⟩
  refine computes_immediate rfl rfl (show (21 : UInt8) < 34 by decide)
    (show ¬ (22 ≤ (21 : UInt8) ∧ (21 : UInt8) ≤ 31) by decide) ?_
  have hvalue := int2sC_toNat hfits
  cases profile <;> simp [immediateOperation, opAddI, shiftRightImmediate, shiftLeftImmediate,
    arithmeticOperation, BinOpr.operation, BinOpr.event, BinOpr.index, hvalue]

/-- A small constant, shifted to the left. -/
theorem translated_shlI (h : isSCint e₁ = some i) :
    Translated id pc profile fs .shl e₁ e₂
      (fs.codebini target (opShlI profile) e₂ i true BinOpr.shl.event) := by
  obtain ⟨value, rfl, rfl, hfits⟩ := isSCint_eq_some h
  obtain ⟨hprimary, hadjunct⟩ := new_finishbinexpval fs target e₂ (int2sC value.toInt) true
    BinOpr.shl.event (show opShlI profile < 128 by cases profile <;> decide)
    (show opMmBinI < 128 by decide)
  rw [Translated, codebini, hprimary, hadjunct]
  refine ⟨(acceptPair_shlI rfl).mpr ⟨rfl, rfl, rfl, rfl, rfl⟩, ?_⟩
  refine @computes_immediate profile fs .shl e₂ true _ _ value rfl rfl ?_ ?_ ?_
  · show opShlI profile < 34
    cases profile <;> decide
  · show ¬ (22 ≤ opShlI profile ∧ opShlI profile ≤ 31)
    cases profile <;> decide
  have hvalue := int2sC_toNat hfits
  cases profile <;> simp [immediateOperation, opShlI, shiftRightImmediate, shiftLeftImmediate,
    BinOpr.operation, hvalue]

end Emitted

end FuncState

namespace FuncState

section Negated

variable {id : ProtoId} {pc : Nat} {profile : LuaProfile} {fs : FuncState} {target : UInt8}
  {e₁ e₂ : Expression} {i : Int}

/-- The fields of a pair behind `finishbinexpneg`. -/
theorem new_finishbinexpneg (fs : FuncState) (target : UInt8) (e₁ : Expression) {op : UInt8}
    (event : UInt8) (hop : op < 128) (hi : fitsC i) (hneg : fitsC (-i)) :
    Decoded.new (fs.finishbinexpneg target e₁ i op event).1
        = ⟨op, target.toUInt16, (fs.exp2anyreg e₁).toUInt16, (int2sC (-i)).toUInt16, false,
          (fs.exp2anyreg e₁).toNat - 127, -i⟩
      ∧ Decoded.new (fs.finishbinexpneg target e₁ i op event).2
        = ⟨opMmBinI, (fs.exp2anyreg e₁).toUInt16, (int2sC i).toUInt16, event.toUInt16, false,
          i, event.toNat - 127⟩ := by
  have hprimary := Decoded.new_createABCk hop target (fs.exp2anyreg e₁) (int2sC (-i)) false
  have hadjunct := Decoded.new_createABCk (show opMmBinI < 128 by decide) (fs.exp2anyreg e₁)
    (int2sC i) event false
  rw [int2sC_toNat hneg] at hprimary
  rw [int2sC_toNat hi] at hadjunct
  exact ⟨hprimary, hadjunct⟩

/-- A difference with a small constant is accepted when the constant is positive. -/
theorem translated_sub_iff (h : negatable e₂ = some i) :
    Translated id pc profile fs .sub e₁ e₂
      (fs.finishbinexpneg target e₁ i opAddI BinOpr.sub.event) ↔ 0 < i := by
  obtain ⟨value, rfl, rfl, hfits, hneg⟩ := negatable_eq_some h
  obtain ⟨hprimary, hadjunct⟩ := new_finishbinexpneg fs target e₁ BinOpr.sub.event
    (show opAddI < 128 by decide) hfits hneg
  rw [Translated, hprimary, hadjunct, acceptPair_addI rfl]
  constructor
  · rintro ⟨⟨-, -, ⟨-, hsc, -⟩ | ⟨hc, -⟩⟩, -⟩
    · simp only at hsc
      omega
    · cases hc
  · intro hpos
    refine ⟨⟨rfl, rfl, .inl ⟨rfl, ?_, ?_⟩⟩, ?_⟩
    · show -value.toInt < 0
      omega
    · show value.toInt = - -value.toInt
      omega
    refine @computes_immediate profile fs .sub e₁ false _ _ value rfl rfl
      (show (21 : UInt8) < 34 by decide)
      (show ¬ (22 ≤ (21 : UInt8) ∧ (21 : UInt8) ≤ 31) by decide) ?_
    simp [immediateOperation, opAddI, BinOpr.operation, BinOpr.event, BinOpr.index]

/-- A left shift by a small constant is accepted when the constant is positive. -/
theorem translated_shl_iff (h : negatable e₂ = some i) :
    Translated id pc profile fs .shl e₁ e₂
      (fs.finishbinexpneg target e₁ i (opShrI profile) BinOpr.shl.event) ↔ 0 < i := by
  obtain ⟨value, rfl, rfl, hfits, hneg⟩ := negatable_eq_some h
  obtain ⟨hprimary, hadjunct⟩ := new_finishbinexpneg fs target e₁ BinOpr.shl.event
    (show opShrI profile < 128 by cases profile <;> decide) hfits hneg
  rw [Translated, hprimary, hadjunct, acceptPair_shrI rfl]
  constructor
  · rintro ⟨⟨-, -, -, ⟨hsc, -⟩ | ⟨-, hc, -⟩⟩, -⟩
    · simp only at hsc
      omega
    · cases hc
  · intro hpos
    have hsc : -value.toInt < 0 := by omega
    refine ⟨⟨rfl, rfl, rfl, .inl ⟨hsc, rfl, ?_⟩⟩, ?_⟩
    · show value.toInt = - -value.toInt
      omega
    refine @computes_immediate profile fs .shl e₁ false _ _ value rfl rfl ?_ ?_ ?_
    · show opShrI profile < 34
      cases profile <;> decide
    · show ¬ (22 ≤ opShrI profile ∧ opShrI profile ≤ 31)
      cases profile <;> decide
    cases profile <;> simp [immediateOperation, opShrI, shiftRightImmediate, BinOpr.operation,
      hpos]

/-- A right shift by a small constant is accepted when the constant is not negative. -/
theorem translated_shr_iff (h : isSCint e₂ = some i) :
    Translated id pc profile fs .shr e₁ e₂
      (fs.codebini target (opShrI profile) e₁ i false BinOpr.shr.event) ↔ 0 ≤ i := by
  obtain ⟨value, rfl, rfl, hfits⟩ := isSCint_eq_some h
  obtain ⟨hprimary, hadjunct⟩ := new_finishbinexpval fs target e₁ (int2sC value.toInt) false
    BinOpr.shr.event (show opShrI profile < 128 by cases profile <;> decide)
    (show opMmBinI < 128 by decide)
  rw [int2sC_toNat hfits] at hprimary hadjunct
  rw [Translated, codebini, hprimary, hadjunct, acceptPair_shrI rfl]
  constructor
  · rintro ⟨⟨-, -, -, ⟨-, hc, -⟩ | ⟨hsc, -⟩⟩, -⟩
    · cases hc
    · exact hsc
  · intro hpos
    refine ⟨⟨rfl, rfl, rfl, .inr ⟨hpos, rfl, rfl⟩⟩, ?_⟩
    refine @computes_immediate profile fs .shr e₁ false _ _ value rfl rfl ?_ ?_ ?_
    · show opShrI profile < 34
      cases profile <;> decide
    · show ¬ (22 ≤ opShrI profile ∧ opShrI profile ≤ 31)
      cases profile <;> decide
    have hnot : ¬ value.toInt < 0 := by omega
    cases profile <;> simp [immediateOperation, opShrI, shiftRightImmediate, shiftLeftImmediate,
      arithmeticOperation, BinOpr.operation, hnot]

end Negated

section Operators

variable {id : ProtoId} {pc : Nat} {profile : LuaProfile} {fs : FuncState} {opr : BinOpr}
  {target : UInt8} {e₁ e₂ : Expression} {flip : Bool}

theorem translated_codebinNoK :
    Translated id pc profile fs opr (if flip then e₂ else e₁) (if flip then e₁ else e₂)
      (fs.codebinNoK target opr e₁ e₂ flip) := by
  cases flip <;> exact translated_codebinexpval

theorem translated_codearith (hopr : opr.index < 10) (hflip : flip → opr.commutative) :
    Translated id pc profile fs opr (if flip then e₂ else e₁) (if flip then e₁ else e₂)
      (fs.codearith target opr e₁ e₂ flip) := by
  unfold codearith
  rcases hk : fs.exp2K e₂ with _ | k
  · exact translated_codebinNoK
  · exact translated_codebinK hopr hk hflip

/-- Without an exchange of the operands. -/
theorem translated_codearith_straight (hopr : opr.index < 10) :
    Translated id pc profile fs opr e₁ e₂ (fs.codearith target opr e₁ e₂ false) :=
  translated_codearith hopr fun h => absurd h Bool.false_ne_true

theorem translated_codecommutativeFrom (hopr : opr = .add ∨ opr = .mul) :
    Translated id pc profile fs opr (if flip then e₂ else e₁) (if flip then e₁ else e₂)
      (fs.codecommutativeFrom target opr e₁ e₂ flip) := by
  rcases hopr with rfl | rfl
  · show Translated id pc profile fs .add _ _ (match isSCint e₂ with
      | some i => fs.codebini target opAddI e₁ i flip BinOpr.add.event
      | none => fs.codearith target .add e₁ e₂ flip)
    rcases hi : isSCint e₂ with _ | i
    · exact translated_codearith (by decide) fun _ => rfl
    · exact translated_addI hi
  · exact translated_codearith (by decide) fun _ => rfl

theorem translated_codecommutative (hopr : opr = .add ∨ opr = .mul) :
    Translated id pc profile fs opr e₁ e₂ (fs.codecommutative target opr e₁ e₂) := by
  unfold codecommutative
  rcases tonumeral e₁ with _ | _
  · exact translated_codecommutativeFrom hopr
  · exact translated_codecommutativeFrom hopr

theorem translated_codebitwiseFrom (hopr : opr.index < 10) (hcommutative : opr.commutative) :
    Translated id pc profile fs opr (if flip then e₂ else e₁) (if flip then e₁ else e₂)
      (fs.codebitwiseFrom target opr e₁ e₂ flip) := by
  unfold codebitwiseFrom
  rcases isInteger e₂ with _ | _
  · exact translated_codebinNoK
  · show Translated id pc profile fs opr _ _ (match fs.exp2K e₂ with
      | some k => fs.codebinK target opr e₁ k flip
      | none => fs.codebinNoK target opr e₁ e₂ flip)
    rcases hk : fs.exp2K e₂ with _ | k
    · exact translated_codebinNoK
    · exact translated_codebinK hopr hk fun _ => hcommutative

theorem translated_codebitwise (hopr : opr.index < 10) (hcommutative : opr.commutative) :
    Translated id pc profile fs opr e₁ e₂ (fs.codebitwise target opr e₁ e₂) := by
  unfold codebitwise
  rcases isInteger e₁ with _ | _
  · exact translated_codebitwiseFrom hopr hcommutative
  · exact translated_codebitwiseFrom hopr hcommutative

/-- Which pairs of the reference compiler are accepted and translated. -/
theorem translated_luaKPosfix_iff :
    Translated id pc profile fs opr e₁ e₂ (fs.luaKPosfix profile target opr e₁ e₂) ↔
      ¬ Unsupported opr e₁ e₂ := by
  cases opr with
  | add => exact iff_of_true (translated_codecommutative (.inl rfl)) not_false
  | mul => exact iff_of_true (translated_codecommutative (.inr rfl)) not_false
  | band | bor | bxor => exact iff_of_true (translated_codebitwise (by decide) rfl) not_false
  | div | idiv | mod | pow =>
    exact iff_of_true (translated_codearith_straight (by decide)) not_false
  | sub =>
    show Translated id pc profile fs .sub _ _ (match negatable e₂ with
      | some i => fs.finishbinexpneg target e₁ i opAddI BinOpr.sub.event
      | none => fs.codearith target .sub e₁ e₂ false) ↔ ¬ ∃ i ∈ negatable e₂, i ≤ 0
    rcases hi : negatable e₂ with _ | i
    · exact iff_of_true (translated_codearith_straight (by decide)) (by simp)
    · simpa using translated_sub_iff hi
  | shl =>
    show Translated id pc profile fs .shl _ _ (match isSCint e₁ with
      | some i => fs.codebini target (opShlI profile) e₂ i true BinOpr.shl.event
      | none =>
        match negatable e₂ with
        | some i => fs.finishbinexpneg target e₁ i (opShrI profile) BinOpr.shl.event
        | none => fs.codebinexpval target .shl e₁ e₂)
      ↔ ¬ (isSCint e₁ = none ∧ ∃ i ∈ negatable e₂, i ≤ 0)
    rcases hi : isSCint e₁ with _ | i
    · rcases hj : negatable e₂ with _ | j
      · exact iff_of_true translated_codebinexpval (by simp)
      · simpa using translated_shl_iff hj
    · exact iff_of_true (translated_shlI hi) (by simp)
  | shr =>
    show Translated id pc profile fs .shr _ _ (match isSCint e₂ with
      | some i => fs.codebini target (opShrI profile) e₁ i false BinOpr.shr.event
      | none => fs.codebinexpval target .shr e₁ e₂) ↔ ¬ ∃ i ∈ isSCint e₂, i < 0
    rcases hi : isSCint e₂ with _ | i
    · exact iff_of_true translated_codebinexpval (by simp)
    · simpa using translated_shr_iff hi

end Operators

end FuncState

/-! ### The check and the reference compiler -/

/-- A compiler that has loaded no numeral. -/
def freshState : FuncState := ⟨fun _ => 2, fun _ => none⟩

-- `x - 5` is accepted
example : acceptPair 0 .lua54 0
    (Decoded.new (freshState.luaKPosfix .lua54 1 .sub (.register 0) (.integer 5)).1)
    (Decoded.new (freshState.luaKPosfix .lua54 1 .sub (.register 0) (.integer 5)).2)
    = .ok () := by
  rfl

end RivetLua.Bytecode.OfficialTranslation
