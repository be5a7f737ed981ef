import RivetLua.Stdlib.Utf8
import RivetLua.Compiler.LexerRuns

namespace RivetLua.Stdlib.Utf8

open RivetLua.Core RivetLua.Compiler Check

/-!
# Stdlib — the users of UTF-8 agree

`utf8.len`, the iterator of `utf8.codes` and `utf8.codepoint` walk over a string on their own, and
the lexer has an encoder of its own.  All of them are compared with one description of a string
as a sequence of characters.

* `Characters` — a string, from an index on, as a sequence of characters;
* `lenLoop_eq_characters_iff`, `codepointLoop_eq_ok_iff`, `codesRun_iff` — the three walks;
* `pushUnicodeEscapeBytes_eq_ok_iff` — the lexer's encoder.
-/

/-! ### Strings as sequences of characters -/

/-- From an index on the string consists of the given characters, each with its position. -/
inductive Characters (bytes : List UInt8) (strict : Bool) : Nat → List (Nat × Nat) → Prop
  | done {index : Nat} (h : bytes.length ≤ index) : Characters bytes strict index []
  | next {index behind code : Nat} {rest : List (Nat × Nat)} (h : index < bytes.length)
      (hdecode : decode bytes index strict = some (behind, code))
      (hrest : Characters bytes strict behind rest) :
      Characters bytes strict index ((index + 1, code) :: rest)

section Walks

variable {bytes : List UInt8} {strict : Bool}

theorem isCont_of_mem_tailBytes {n value : Nat} {byte : UInt8} (h : byte ∈ tailBytes n value) :
    isCont byte = true := by
  induction n with
  | zero => cases h
  | succ n ih =>
    rcases List.mem_cons.mp h with rfl | h
    · exact isCont_contByte _
    · exact ih h

/-- A character moves the index, stays within the string, and has continuation bytes only behind
    its first byte. -/
theorem decode_moves {index behind code : Nat} (hindex : index < bytes.length)
    (h : decode bytes index strict = some (behind, code)) :
    index < behind ∧ behind ≤ bytes.length
      ∧ ∀ k, index < k → k < behind → isCont (byteAt bytes k) = true := by
  obtain ⟨n, -, rfl, -, htail, -⟩ := decode_eq_some h
  have hlen : n ≤ bytes.length - (index + 1) := by
    have := congrArg List.length htail
    rw [List.length_take, List.length_drop, length_tailBytes] at this
    omega
  refine ⟨by omega, by omega, fun k hlow hhigh => ?_⟩
  have hget : bytes[k]? = (tailBytes n code)[k - (index + 1)]? := by
    rw [← htail, List.getElem?_take_of_lt (by omega), List.getElem?_drop]
    congr 1
    omega
  have hk : k < bytes.length := by omega
  rw [byteAt, List.getD_eq_getElem?_getD, List.getElem?_eq_getElem hk, Option.getD_some]
  rw [List.getElem?_eq_getElem hk] at hget
  exact isCont_of_mem_tailBytes (List.mem_of_getElem? hget.symm)

/-- A character does not start with a continuation byte. -/
theorem not_isCont_of_decode {index : Nat} {r : Nat × Nat}
    (h : decode bytes index strict = some r) : isCont (byteAt bytes index) = false := by
  by_contra hcont
  simp [decode, leadByte_of_isCont (by simpa using hcont)] at h

theorem byteAt_of_length_le {index : Nat} (h : bytes.length ≤ index) : byteAt bytes index = 0 := by
  simp [byteAt, h]

/-- Where a sequence of characters starts there is no continuation byte. -/
theorem Characters.not_isCont {index : Nat} {chars : List (Nat × Nat)}
    (h : Characters bytes strict index chars) : isCont (byteAt bytes index) = false := by
  cases h with
  | done h =>
    rw [byteAt_of_length_le h]
    decide
  | next _ hdecode _ => exact not_isCont_of_decode hdecode

/-! ### `utf8.len` and `utf8.codepoint` -/

/-- The loop of `len` over the rest of a string counts its characters. -/
theorem lenLoop_eq_characters_iff {fuel index count k : Nat} (hfuel : bytes.length ≤ index + fuel) :
    lenLoop bytes bytes.length strict fuel index count = .characters k
      ↔ ∃ chars, Characters bytes strict index chars ∧ k = count + chars.length := by
  induction fuel generalizing index count with
  | zero =>
    simp only [lenLoop, Length.characters.injEq]
    constructor
    · rintro rfl
      exact ⟨[], .done (by omega), rfl⟩
    · rintro ⟨chars, hchars, rfl⟩
      cases hchars with
      | done => rfl
      | next h => omega
  | succ fuel ih =>
    unfold lenLoop
    by_cases hindex : index < bytes.length
    · rw [if_pos (by omega)]
      cases hdecode : decode bytes index strict with
      | none =>
        simp only [reduceCtorEq, false_iff]
        rintro ⟨chars, hchars, -⟩
        cases hchars with
        | done h => omega
        | next _ hd => rw [hdecode] at hd; cases hd
      | some r =>
        obtain ⟨behind, code⟩ := r
        have hmove := (decode_moves hindex hdecode).1
        simp only
        rw [ih (by omega)]
        constructor
        · rintro ⟨chars, hchars, rfl⟩
          exact ⟨_, .next hindex hdecode hchars, by simp; omega⟩
        · rintro ⟨chars, hchars, rfl⟩
          cases hchars with
          | done h => omega
          | next _ hd hrest =>
            rw [hdecode] at hd
            cases hd
            exact ⟨_, hrest, by simp; omega⟩
    · rw [if_neg (by omega), Length.characters.injEq]
      constructor
      · rintro rfl
        exact ⟨[], .done (by omega), rfl⟩
      · rintro ⟨chars, hchars, rfl⟩
        cases hchars with
        | done => rfl
        | next h => omega

/-- The loop of `codepoint` over the rest of a string collects its codes. -/
theorem codepointLoop_of_characters {index : Nat} {chars : List (Nat × Nat)}
    (h : Characters bytes strict index chars) {fuel : Nat} {values : List Nat}
    (hfuel : bytes.length ≤ index + fuel) :
    codepointLoop bytes bytes.length strict fuel index values
      = .ok (values ++ chars.map Prod.snd) := by
  induction h generalizing fuel values with
  | done h =>
    cases fuel with
    | zero => simp [codepointLoop]
    | succ fuel => simp [codepointLoop, Nat.not_lt.mpr h]
  | next hindex hdecode hrest ih =>
    have hmove := (decode_moves hindex hdecode).1
    cases fuel with
    | zero => omega
    | succ fuel =>
      simp only [codepointLoop, if_pos hindex, hdecode]
      rw [ih (by omega)]
      simp

/-! ### The iterator of `utf8.codes` -/

/-- A run of the iterator from a control value: each call receives the position the call before
    returned, and the run is complete when a call returns nothing. -/
inductive CodesRun (bytes : List UInt8) (strict : Bool) : Int → List (Nat × Nat) → Prop
  | stop {control : Int} (h : iterator bytes strict control = .ok none) :
      CodesRun bytes strict control []
  | step {control : Int} {position code : Nat} {rest : List (Nat × Nat)}
      (h : iterator bytes strict control = .ok (some (position, code)))
      (hrest : CodesRun bytes strict position rest) :
      CodesRun bytes strict control ((position, code) :: rest)

/-- Continuation bytes up to a byte of another kind are skipped. -/
theorem skipContinuations_eq {fuel index stop : Nat} (hle : index ≤ stop)
    (hfuel : stop ≤ index + fuel)
    (hcont : ∀ k, index ≤ k → k < stop → isCont (byteAt bytes k) = true)
    (hstop : isCont (byteAt bytes stop) = false) :
    skipContinuations bytes fuel index = stop := by
  induction fuel generalizing index with
  | zero =>
    have : index = stop := by omega
    simp [skipContinuations, this]
  | succ fuel ih =>
    unfold skipContinuations
    by_cases heq : index = stop
    · subst heq
      simp [hstop]
    · rw [hcont index (le_refl _) (by omega), if_pos rfl]
      exact ih (by omega) (by omega) (fun k hlow hhigh => hcont k (by omega) hhigh)

/-- Behind a character the iterator goes on at the next one. -/
theorem iteratorStart_behind {index behind code : Nat} (hindex : index < bytes.length)
    (hdecode : decode bytes index strict = some (behind, code))
    (hstop : isCont (byteAt bytes behind) = false) :
    iteratorStart bytes ((index + 1 : Nat) : Int) = behind := by
  obtain ⟨hlow, hhigh, hcont⟩ := decode_moves hindex hdecode
  have hnat : ¬ ((index + 1 : Nat) : Int) < 0 := by omega
  simp only [iteratorStart, if_neg hnat, Int.toNat_natCast]
  by_cases hend : index + 1 < bytes.length
  · rw [if_pos hend]
    exact skipContinuations_eq (by omega) (by omega) (fun k h₁ h₂ => hcont k (by omega) h₂) hstop
  · rw [if_neg hend]
    omega

/-- The end of the string ends the iteration. -/
theorem iterator_stop {control : Int} (h : bytes.length ≤ iteratorStart bytes control) :
    iterator bytes strict control = .ok none := by
  simp [iterator, h]

/-- A character with none of its continuation bytes left over is returned. -/
theorem iterator_step {control : Int} {behind code : Nat}
    (hindex : iteratorStart bytes control < bytes.length)
    (hdecode : decode bytes (iteratorStart bytes control) strict = some (behind, code))
    (hstop : isCont (byteAt bytes behind) = false) :
    iterator bytes strict control = .ok (some (iteratorStart bytes control + 1, code)) := by
  simp [iterator, Nat.not_le.mpr hindex, hdecode, hstop]

/-- These are all the calls that return. -/
theorem iterator_cases {control : Int} {r : Option (Nat × Nat)}
    (h : iterator bytes strict control = .ok r) :
    (bytes.length ≤ iteratorStart bytes control ∧ r = none)
      ∨ ∃ behind code, iteratorStart bytes control < bytes.length
        ∧ decode bytes (iteratorStart bytes control) strict = some (behind, code)
        ∧ isCont (byteAt bytes behind) = false
        ∧ r = some (iteratorStart bytes control + 1, code) := by
  unfold iterator at h
  simp only at h
  split at h
  · rename_i hend
    simp only [Except.ok.injEq] at h
    exact .inl ⟨hend, h.symm⟩
  · rename_i hindex
    split at h
    · cases h
    · rename_i behind code hdecode
      split at h
      · cases h
      · rename_i hgood
        simp only [Except.ok.injEq] at h
        refine .inr ⟨behind, code, by omega, hdecode, ?_, h.symm⟩
        by_cases hin : behind < bytes.length
        · simpa [hin] using hgood
        · rw [byteAt_of_length_le (by omega)]
          decide

/-- A complete run passes over the characters that follow its start. -/
theorem CodesRun.characters {control : Int} {chars : List (Nat × Nat)}
    (h : CodesRun bytes strict control chars) :
    Characters bytes strict (iteratorStart bytes control) chars := by
  induction h with
  | stop h =>
    obtain ⟨hend, -⟩ | ⟨_, _, _, _, _, hr⟩ := iterator_cases h
    · exact .done hend
    · cases hr
  | step h _ ih =>
    obtain ⟨-, hr⟩ | ⟨behind, code, hindex, hdecode, hstop, hr⟩ := iterator_cases h
    · cases hr
    · cases hr
      rw [iteratorStart_behind hindex hdecode hstop] at ih
      exact .next hindex hdecode ih

/-- The characters that follow the start of the iterator are those of a complete run. -/
theorem Characters.codesRun {index : Nat} {chars : List (Nat × Nat)}
    (h : Characters bytes strict index chars) {control : Int}
    (hcontrol : iteratorStart bytes control = index) : CodesRun bytes strict control chars := by
  induction h generalizing control with
  | done hend => exact .stop (iterator_stop (by omega))
  | next hindex hdecode hrest ih =>
    subst hcontrol
    have hstop := hrest.not_isCont
    exact .step (iterator_step hindex hdecode hstop)
      (ih (iteratorStart_behind hindex hdecode hstop))

/-- `utf8.codes` starts at the first byte, unless that is a continuation byte. -/
theorem codes_eq_ok_iff : codes bytes = .ok () ↔ isCont (byteAt bytes 0) = false := by
  cases bytes with
  | nil => decide
  | cons byte rest => simp [codes, byteAt]

theorem iteratorStart_zero (h : isCont (byteAt bytes 0) = false) : iteratorStart bytes 0 = 0 := by
  simp only [iteratorStart, lt_self_iff_false, if_false, Int.toNat_zero]
  split
  · exact skipContinuations_eq (le_refl 0) (by omega) (fun k _ h => by omega) h
  · rfl

/-- The runs of `utf8.codes` that complete are those over a string of characters. -/
theorem codes_run_iff {chars : List (Nat × Nat)} :
    codes bytes = .ok () ∧ CodesRun bytes strict 0 chars ↔ Characters bytes strict 0 chars := by
  rw [codes_eq_ok_iff]
  constructor
  · rintro ⟨hfirst, hrun⟩
    have := hrun.characters
    rwa [iteratorStart_zero hfirst] at this
  · intro h
    exact ⟨h.not_isCont, h.codesRun (iteratorStart_zero h.not_isCont)⟩

/-! ### Whole strings -/

/-- `-1` is the last position. -/
theorem relative_neg_one (n : Nat) : relative (-1) n = n := by
  unfold relative
  split_ifs <;> omega

theorem len_whole_iff {lax : Bool} {k : Nat} :
    len bytes none none lax = .ok (.characters k)
      ↔ ∃ chars, Characters bytes (!lax) 0 chars ∧ k = chars.length := by
  have hone : relative 1 bytes.length = 1 := rfl
  have hfirst : ((1 : Int) - 1).toNat = 0 := rfl
  simp only [len, Option.getD_none, relative_neg_one, hone, hfirst]
  rw [if_neg (by omega), Except.ok.injEq, lenLoop_eq_characters_iff (by omega)]
  simp

/-- Over a whole string `utf8.codepoint` returns the codes, within the length of a slice. -/
theorem codepoint_whole {lax : Bool} {chars : List (Nat × Nat)}
    (h : Characters bytes (!lax) 0 chars) (hlen : bytes.length ≤ 2 ^ 31 - 1) :
    codepoint bytes (some 1) (some (-1)) lax = .ok (chars.map Prod.snd) := by
  have hone : relative 1 bytes.length = 1 := rfl
  simp only [codepoint, Option.getD_some, relative_neg_one, hone]
  rw [if_neg (by omega)]
  by_cases hempty : bytes.length = 0
  · rw [if_pos (by omega)]
    cases h with
    | done => rfl
    | next hindex => omega
  · rw [if_neg (by omega), if_neg (by omega)]
    exact codepointLoop_of_characters h (by simp)

/-- A longer slice is an argument error. -/
theorem codepoint_whole_of_lt {lax : Bool} (hlen : 2 ^ 31 - 1 < bytes.length) :
    codepoint bytes (some 1) (some (-1)) lax = .error .argument := by
  have hone : relative 1 bytes.length = 1 := rfl
  simp only [codepoint, Option.getD_some, relative_neg_one, hone]
  rw [if_neg (by omega), if_neg (by omega), if_pos (by omega)]

/-- Every string of ASCII bytes consists of characters. -/
theorem characters_of_ascii (hascii : ∀ byte ∈ bytes, byte < 0x80) (left index : Nat)
    (hleft : bytes.length ≤ index + left) : ∃ chars, Characters bytes strict index chars := by
  induction left generalizing index with
  | zero => exact ⟨[], .done hleft⟩
  | succ left ih =>
    by_cases hindex : index < bytes.length
    · obtain ⟨chars, hchars⟩ := ih (index + 1) (by omega)
      have hbyte : byteAt bytes index = bytes[index] := by
        simp [byteAt, hindex]
      have hlt : bytes[index] < 0x80 := hascii _ (List.getElem_mem hindex)
      have hnat : bytes[index].toNat < 0x80 := hlt
      have hscalar : isScalar bytes[index].toNat = true :=
        (by decide +kernel : ∀ n < 0x80, isScalar n = true) _ hnat
      have hdecode : decode bytes index strict = some (index + 1, bytes[index].toNat) := by
        simp only [decode, hbyte, leadByte, if_pos hlt, continuations, hscalar]
        rw [if_neg (by unfold maxUtf; simp; omega)]
      exact ⟨_, .next hindex hdecode hchars⟩
    · exact ⟨[], .done (by omega)⟩

end Walks

/-! ### The lexer's encoder -/

section Lexer

open RivetLua.Compiler.Lexer

variable {limits : CompileLimits} {origin : Origin} {c : Cursor}

theorem pushContinuations_eq_ok_iff {value n : Nat} {bytes bytes' : List UInt8} :
    pushContinuations limits origin c value n bytes = .ok bytes'
      ↔ bytes' = bytes ++ tailBytes n value
        ∧ (n = 0 ∨ bytes.length + n ≤ limits.maxTokenBytes) := by
  induction n generalizing bytes with
  | zero => simp [pushContinuations, tailBytes, eq_comm]
  | succ n ih =>
    have hbyte : 0x80 ||| UInt8.ofNat ((value >>> (n * 6)) &&& 0x3f) = contByte (value / 64 ^ n) := by
      have h : ∀ m < 64, 0x80 ||| UInt8.ofNat m = UInt8.ofNat (0x80 + m) := by decide
      have hshift : value >>> (n * 6) = value / 64 ^ n := by
        rw [Nat.shiftRight_eq_div_pow, Nat.mul_comm, Nat.pow_mul]
      have hmask : (value / 64 ^ n) &&& 0x3f = value / 64 ^ n % 64 :=
        Nat.and_two_pow_sub_one_eq_mod _ 6
      rw [hshift, hmask]
      exact h _ (Nat.mod_lt _ (by decide))
    simp only [pushContinuations, hbyte, bind_eq_ok, pushLiteralByte_eq_ok_iff, ih, tailBytes]
    constructor
    · rintro ⟨_, ⟨rfl, hroom⟩, rfl, hrest⟩
      simp only [List.length_append, List.length_singleton] at hrest
      exact ⟨by simp, by omega⟩
    · rintro ⟨rfl, hroom⟩
      refine ⟨_, ⟨rfl, by omega⟩, by simp, ?_⟩
      simp only [List.length_append, List.length_singleton]
      omega

/-- The lexer's table of lengths is that of `encode`. -/
theorem unicodeLength_eq (value : Nat) :
    unicodeLength value = if value ≤ maxUtf then
        some (encodedLength value, firstByte (encodedLength value - 1) 0)
      else none := by
  have hzero : firstByte 0 0 = 0x00 := by decide
  have hone : firstByte 1 0 = 0xc0 := by decide
  have htwo : firstByte 2 0 = 0xe0 := by decide
  have hthree : firstByte 3 0 = 0xf0 := by decide
  have hfour : firstByte 4 0 = 0xf8 := by decide
  have hfive : firstByte 5 0 = 0xfc := by decide
  unfold unicodeLength encodedLength maxUtf
  split_ifs <;> simp_all <;> omega

/-- The bits of a first byte are put beside its marker. -/
theorem firstByte_or (n bits : Nat) : firstByte n 0 ||| UInt8.ofNat bits = firstByte n bits := by
  unfold firstByte
  split <;> simp

/-- The lexer appends the bytes of `encode`. -/
theorem pushUnicodeEscapeBytes_eq_ok_iff {value : Nat} {bytes bytes' : List UInt8} :
    pushUnicodeEscapeBytes limits origin c bytes value = .ok bytes'
      ↔ value ≤ maxUtf ∧ bytes' = bytes ++ encode value
        ∧ bytes.length + (encode value).length ≤ limits.maxTokenBytes := by
  by_cases hmax : value ≤ maxUtf
  · have hpos := encodedLength_pos value
    have hshift : value >>> ((encodedLength value - 1) * 6)
        = value / 64 ^ (encodedLength value - 1) := by
      rw [Nat.shiftRight_eq_div_pow, Nat.mul_comm, Nat.pow_mul]
    simp only [pushUnicodeEscapeBytes, unicodeLength_eq, if_pos hmax, bind_eq_ok, hshift,
      firstByte_or, pushLiteralByte_eq_ok_iff, pushContinuations_eq_ok_iff, length_encode]
    constructor
    · rintro ⟨_, ⟨rfl, hroom⟩, rfl, hrest⟩
      simp only [List.length_append, List.length_singleton] at hrest
      exact ⟨hmax, by simp [encode_eq], by omega⟩
    · rintro ⟨-, rfl, hroom⟩
      refine ⟨_, ⟨rfl, by omega⟩, by simp [encode_eq], ?_⟩
      simp only [List.length_append, List.length_singleton]
      omega
  · simp [pushUnicodeEscapeBytes, unicodeLength_eq, hmax, lexError]

/-- `utf8.char` of one code. -/
theorem charBytes_singleton {profile : LuaProfile} {value : Nat} {out : List UInt8} :
    charBytes profile [(value : Int)] = .ok out ↔ value ≤ maxUtf ∧ out = encode value := by
  have hsize : ¬ 6 > maxSize profile := by cases profile <;> decide
  simp only [charBytes, List.length_singleton, Nat.one_mul, if_neg hsize, charLoop]
  by_cases hmax : value ≤ maxUtf
  · rw [if_pos ⟨by omega, by omega⟩]
    simp [hmax, eq_comm]
  · rw [if_neg (by omega)]
    simp [hmax]

/-- An escape `u{X}` appends the bytes of `utf8.char(X)`: exactly when `utf8.char` accepts `X` and
    the limits leave room. -/
theorem scanUnicodeEscape_eq_ok_iff {c' : Cursor} {tail bytes bytes' : List UInt8}
    (profile : LuaProfile) (hrest : c.rest = 0x75 :: tail) :
    scanUnicodeEscape limits origin c bytes = .ok (c', bytes')
      ↔ ∃ digits rest out, tail = 0x7b :: (digits ++ 0x7d :: rest) ∧ digits ≠ []
        ∧ (∀ d ∈ digits, isAsciiHexdigit d = true)
        ∧ charBytes profile [(hexNumber digits 0 : Int)] = .ok out ∧ bytes' = bytes ++ out
        ∧ c' = c.skip (digits.length + 3) ∧ Room limits origin c (digits.length + 3)
        ∧ bytes.length + out.length ≤ limits.maxTokenBytes := by
  have hu : isLineBreak 0x75 = false := by decide
  have hbrace : isLineBreak 0x7b = false := by decide
  simp only [scanUnicodeEscape, bind_eq_ok, advance_eq_ok_iff hrest hu, charBytes_singleton]
  constructor
  · rintro ⟨_, ⟨rfl, -⟩, h⟩
    split at h
    · cases h
    · rename_i hpeek
      obtain ⟨inner, hinner⟩ := Cursor.peek_eq_some.mp (not_not.mp hpeek)
      simp only [bind_eq_ok, advance_eq_ok_iff hinner hbrace] at h
      obtain ⟨_, ⟨rfl, -⟩, ⟨c₁, value⟩, hdigits, h⟩ := h
      obtain ⟨digits, rest, hsplit, hall, hsome, rfl, -, rfl, hroom⟩ :=
        (unicodeDigits_eq_ok_iff (le_refl _)).mp hdigits
      simp only [pushUnicodeEscapeBytes_eq_ok_iff, pure, Except.pure, Except.ok.injEq,
        Prod.mk.injEq] at h
      obtain ⟨_, ⟨hmax, rfl, hlimit⟩, rfl, rfl⟩ := h
      have htail : tail = 0x7b :: inner := by simpa [hrest] using hinner
      refine ⟨digits, rest, _, ?_, by simpa using hsome, hall, ⟨hmax, rfl⟩, rfl, ?_, ?_, hlimit⟩
      · simpa [hrest, htail] using hsplit
      · rw [Cursor.skip_skip, Cursor.skip_skip]
        congr 1
        omega
      · rw [room_skip, room_skip] at hroom
        exact hroom.mono (by omega)
  · rintro ⟨digits, rest, out, rfl, hsome, hall, ⟨hmax, rfl⟩, rfl, rfl, hroom, hlimit⟩
    refine ⟨_, ⟨rfl, hroom.mono (by omega)⟩, ?_⟩
    have hinner : (c.skip 1).rest = 0x7b :: (digits ++ 0x7d :: rest) := by simp [hrest]
    have hpeek : (c.skip 1).peek = some 0x7b := Cursor.peek_eq_some.mpr ⟨_, hinner⟩
    rw [if_neg (not_not.mpr hpeek)]
    simp only [bind_eq_ok, advance_eq_ok_iff hinner hbrace]
    refine ⟨_, ⟨rfl, ?_⟩, (_, hexNumber digits 0), (unicodeDigits_eq_ok_iff (le_refl _)).mpr
      ⟨digits, rest, by simp [hrest], hall, .inr hsome, rfl, .inr hmax, rfl, ?_⟩, ?_⟩
    · rw [room_skip]
      exact hroom.mono (by omega)
    · rw [room_skip, room_skip]
      exact hroom.mono (by omega)
    · simp only [pushUnicodeEscapeBytes_eq_ok_iff, pure, Except.pure, Except.ok.injEq,
        Prod.mk.injEq]
      refine ⟨_, ⟨hmax, rfl, hlimit⟩, ?_, rfl⟩
      rw [Cursor.skip_skip, Cursor.skip_skip]
      congr 1
      omega

end Lexer

/-! ### The library as a whole -/

/-- **Consistency of the library.**  What `encode` writes `decode` reads, and nothing else: the
    strict mode reads the scalar values, the lax mode every code.  The lexer's `u{X}` appends what
    `utf8.char(X)` returns, whenever that accepts `X` and the limits leave room.  `utf8.len` counts
    `k` characters exactly when the iterator of `utf8.codes` completes in `k` steps, and these yield
    the codes that `utf8.codepoint` returns for the whole string; a string longer than the longest
    slice is an argument error there. -/
theorem utf8_library_consistent :
    (∀ code ≤ maxUtf, decode (encode code) 0 false = some ((encode code).length, code))
    ∧ (∀ code ≤ maxUtf, isScalar code = true →
        decode (encode code) 0 true = some ((encode code).length, code))
    ∧ (∀ (bytes : List UInt8) (index : Nat) (strict : Bool) (next code : Nat),
        index < bytes.length → decode bytes index strict = some (next, code) →
        next = index + (encode code).length
          ∧ (bytes.drop index).take (next - index) = encode code ∧ code ≤ maxUtf
          ∧ (strict = true → isScalar code = true))
    ∧ (∀ (profile : LuaProfile) (limits : Lexer.CompileLimits) (origin : Lexer.Origin)
        (c c' : Lexer.Cursor) (tail bytes bytes' : List UInt8), c.rest = 0x75 :: tail →
        (Lexer.scanUnicodeEscape limits origin c bytes = .ok (c', bytes')
          ↔ ∃ digits rest out, tail = 0x7b :: (digits ++ 0x7d :: rest) ∧ digits ≠ []
            ∧ (∀ d ∈ digits, isAsciiHexdigit d = true)
            ∧ charBytes profile [(Lexer.hexNumber digits 0 : Int)] = .ok out
            ∧ bytes' = bytes ++ out ∧ c' = c.skip (digits.length + 3)
            ∧ Lexer.Room limits origin c (digits.length + 3)
            ∧ bytes.length + out.length ≤ limits.maxTokenBytes))
    ∧ (∀ (bytes : List UInt8) (lax : Bool) (k : Nat), len bytes none none lax = .ok (.characters k)
        ↔ ∃ steps, steps.length = k ∧ codes bytes = .ok () ∧ CodesRun bytes (!lax) 0 steps)
    ∧ (∀ (bytes : List UInt8) (lax : Bool) (steps : List (Nat × Nat)), codes bytes = .ok () →
        CodesRun bytes (!lax) 0 steps →
        codepoint bytes (some 1) (some (-1)) lax
          = if bytes.length ≤ 2 ^ 31 - 1 then .ok (steps.map Prod.snd) else .error .argument) := by
  refine ⟨?_, ?_, ?_, ?_, ?_, ?_⟩
  · intro code hcode
    simpa [length_encode] using @decode_encode _ hcode false (by simp) [] []
  · intro code hcode hscalar
    simpa [length_encode] using @decode_encode _ hcode true (fun _ => hscalar) [] []
  · intro bytes index strict next code hindex h
    exact encode_of_decode hindex h
  · intro profile limits origin c c' tail bytes bytes' hrest
    exact scanUnicodeEscape_eq_ok_iff profile hrest
  · intro bytes lax k
    rw [len_whole_iff]
    constructor
    · rintro ⟨chars, hchars, rfl⟩
      exact ⟨chars, rfl, codes_run_iff.mpr hchars⟩
    · rintro ⟨steps, rfl, hsteps⟩
      exact ⟨steps, codes_run_iff.mp hsteps, rfl⟩
  · intro bytes lax steps hcodes hrun
    have hchars := codes_run_iff.mp ⟨hcodes, hrun⟩
    by_cases hlen : bytes.length ≤ 2 ^ 31 - 1
    · rw [if_pos hlen]
      exact codepoint_whole hchars hlen
    · rw [if_neg hlen]
      exact codepoint_whole_of_lt (by omega)

/-- A string of `2^31` letters: its characters are counted and iterated over, but
    `utf8.codepoint` refuses the slice. -/
theorem utf8_codepoint_refuses_long_slice :
    ¬ ∀ (bytes : List UInt8) (lax : Bool) (k : Nat), len bytes none none lax = .ok (.characters k)
      ↔ ∃ steps, steps.length = k ∧ codes bytes = .ok () ∧ CodesRun bytes (!lax) 0 steps
        ∧ codepoint bytes (some 1) (some (-1)) lax = .ok (steps.map Prod.snd) := by
  intro hclaim
  let letters : List UInt8 := List.replicate (2 ^ 31) 0x41
  have hlength : letters.length = 2 ^ 31 := List.length_replicate
  have hascii : ∀ byte ∈ letters, byte < 0x80 := by
    intro byte hbyte
    rw [List.eq_of_mem_replicate hbyte]
    decide
  obtain ⟨chars, hchars⟩ : ∃ chars, Characters letters (!true) 0 chars :=
    characters_of_ascii hascii letters.length 0 (by omega)
  obtain ⟨steps, -, -, -, hcodepoint⟩ :=
    (hclaim letters true chars.length).mp (len_whole_iff.mpr ⟨chars, hchars, rfl⟩)
  rw [codepoint_whole_of_lt (by omega)] at hcodepoint
  cases hcodepoint

end RivetLua.Stdlib.Utf8
