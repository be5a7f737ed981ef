import Mathlib.Data.Nat.Count
import RivetLua.Lib.Check
import RivetLua.Stdlib.Utf8Consistency

namespace RivetLua.Stdlib.Utf8

open RivetLua.Core

/-!
# Stdlib — `utf8.offset`

`offset` goes from byte to byte and knows characters only by their first bytes: a position is a
boundary when its byte does not continue a character, and so is the position behind the string.
Going back it stops at the first byte of the string whatever it is, as `lutf8lib.c` does; a string
that starts within a character has one more place to stop at, which is no boundary.

* `offset` — the function of the library;
* `IsBoundary`, `Landing`, `Reached` — boundaries, and where a count of them leads;
* `offset_boundaries` — what `offset` returns.
-/

/-! ### The function -/

/-- Back over continuation bytes, as far as the first byte. -/
def backOver (bytes : List UInt8) : Nat → Nat
  | 0 => 0
  | position + 1 =>
    if isCont (byteAt bytes (position + 1)) then backOver bytes position else position + 1

/-- The loop of a negative count: what is left of the count, and the position. -/
def backLoop (bytes : List UInt8) : Nat → Nat → Nat × Nat
  | 0, position => (0, position)
  | n + 1, 0 => (n + 1, 0)
  | n + 1, position + 1 => backLoop bytes n (backOver bytes position)

/-- The loop of a positive count. -/
def forwardLoop (bytes : List UInt8) : Nat → Nat → Nat × Nat
  | 0, position => (0, position)
  | n + 1, position =>
    if position < bytes.length then
      forwardLoop bytes n (skipContinuations bytes (bytes.length - (position + 1)) (position + 1))
    else (n + 1, position)

/-- The loop of the second result. -/
def endLoop (bytes : List UInt8) : Nat → Nat → Nat
  | 0, last => last
  | fuel + 1, last =>
    if isCont (byteAt bytes (last + 1)) then endLoop bytes fuel (last + 1) else last

/-- The second result of the 5.5 profile, as an index. -/
def offsetEnd (bytes : List UInt8) (position : Nat) : Except Utf8Error Nat :=
  let current := byteAt bytes position
  if current &&& 0x80 ≠ 0 then
    if isCont current then .error .sequence
    else .ok (endLoop bytes (bytes.length - (position + 1)) position)
  else .ok position

/-- Where the count starts. -/
def offsetStart (bytes : List UInt8) (n : Int) : Option Int → Int
  | none => if n ≥ 0 then 1 else bytes.length + 1
  | some i => relative i bytes.length

/-- What is left of the count, and the position it has led to. -/
def offsetMove (bytes : List UInt8) (n : Int) (position : Nat) : Except Utf8Error (Nat × Nat) :=
  if n = 0 then .ok (0, backOver bytes position)
  else if isCont (byteAt bytes position) then .error .sequence
  else if n < 0 then .ok (backLoop bytes n.natAbs position)
  else .ok (forwardLoop bytes (n.natAbs - 1) position)

/-- `offset`: the position and, in the 5.5 profile, where its character ends. -/
def offset (profile : LuaProfile) (bytes : List UInt8) (n : Int) (i : Option Int) :
    Except Utf8Error (Option (Nat × Option Nat)) :=
  let first := offsetStart bytes n i
  if first < 1 ∨ first > bytes.length + 1 then .error .argument
  else do
    let (left, position) ← offsetMove bytes n (first - 1).toNat
    if left ≠ 0 then .ok none
    else match profile with
      | .lua54 => .ok (some (position + 1, none))
      | .lua55 => do
        let last ← offsetEnd bytes position
        .ok (some (position + 1, some (last + 1)))

/-! ### Boundaries -/

/-- A position whose byte does not continue a character, or the one behind the string. -/
def IsBoundary (bytes : List UInt8) (position : Nat) : Prop :=
  position = bytes.length + 1
    ∨ (1 ≤ position ∧ position ≤ bytes.length ∧ isCont (byteAt bytes (position - 1)) = false)

instance (bytes : List UInt8) : DecidablePred (IsBoundary bytes) := fun _ =>
  inferInstanceAs (Decidable (_ ∨ _))

/-- A position at which `offset` stops: a boundary, or the first position. -/
def Landing (bytes : List UInt8) (position : Nat) : Prop :=
  position = 1 ∨ IsBoundary bytes position

instance (bytes : List UInt8) : DecidablePred (Landing bytes) := fun _ =>
  inferInstanceAs (Decidable (_ ∨ _))

/-- The number of landings below a position. -/
def rank (bytes : List UInt8) (position : Nat) : Nat := Nat.count (Landing bytes) position

/-- The landing a count leads to from a position: as many landings lie between them as the count
    says, one less going forward, and none when the count is zero. -/
structure Reached (bytes : List UInt8) (n : Int) (start position : Nat) : Prop where
  landing : Landing bytes position
  forward : 0 < n → start ≤ position ∧ (rank bytes position : Int) = rank bytes start + (n - 1)
  backward : n < 0 → position < start ∧ (rank bytes position : Int) = rank bytes start + n
  within : n = 0 → position ≤ start ∧ ∀ p, position < p → p ≤ start → ¬ Landing bytes p

/-- Where the character at a boundary ends: before the next boundary, but an ASCII byte and the end
    of the string stand alone. -/
structure EndsAt (bytes : List UInt8) (position last : Nat) : Prop where
  boundary : IsBoundary bytes position
  within : position ≤ last ∧ last ≤ bytes.length + 1
  single : byteAt bytes (position - 1) < 0x80 → last = position
  many : 0x80 ≤ byteAt bytes (position - 1) → IsBoundary bytes (last + 1)
    ∧ ∀ p, position < p → p ≤ last → ¬ IsBoundary bytes p

section Boundaries

variable {bytes : List UInt8}

theorem isCont_end {index : Nat} (h : bytes.length ≤ index) :
    isCont (byteAt bytes index) = false := by
  rw [byteAt_of_length_le h]
  decide

theorem isBoundary_succ {index : Nat} :
    IsBoundary bytes (index + 1)
      ↔ index ≤ bytes.length ∧ isCont (byteAt bytes index) = false := by
  unfold IsBoundary
  rw [Nat.add_sub_cancel]
  constructor
  · rintro (h | ⟨-, hle, hcont⟩)
    · exact ⟨by omega, isCont_end (by omega)⟩
    · exact ⟨by omega, hcont⟩
  · rintro ⟨hle, hcont⟩
    by_cases hend : index = bytes.length
    · exact .inl (by omega)
    · exact .inr ⟨by omega, by omega, hcont⟩

/-- Behind the first position every landing is a boundary. -/
theorem landing_iff {position : Nat} (h : position ≠ 1 ∨ isCont (byteAt bytes 0) = false) :
    Landing bytes position ↔ IsBoundary bytes position := by
  unfold Landing
  refine ⟨?_, .inr⟩
  rintro (rfl | hboundary)
  · rcases h with h | h
    · exact absurd rfl h
    · exact isBoundary_succ.mpr ⟨Nat.zero_le _, h⟩
  · exact hboundary

/-- A continuation byte behind the first position is no landing. -/
theorem not_landing_of_isCont {index : Nat} (hpos : 0 < index)
    (h : isCont (byteAt bytes index) = true) : ¬ Landing bytes (index + 1) := by
  rw [landing_iff (.inl (by omega)), isBoundary_succ, h]
  simp

theorem landing_le {position : Nat} (h : Landing bytes position) :
    1 ≤ position ∧ position ≤ bytes.length + 1 := by
  rcases h with rfl | rfl | ⟨hpos, hle, -⟩
  · exact ⟨Nat.le_refl _, by omega⟩
  · exact ⟨by omega, Nat.le_refl _⟩
  · exact ⟨hpos, by omega⟩

theorem rank_one : rank bytes 1 = 0 := by
  have hzero : ¬ Landing bytes 0 := fun h => by
    have := (landing_le h).1
    omega
  rw [rank, Nat.count_succ, Nat.count_zero, if_neg hzero]

theorem rank_succ_of {position : Nat} (h : Landing bytes position) :
    rank bytes (position + 1) = rank bytes position + 1 := by
  rw [rank, Nat.count_succ, if_pos h]
  rfl

/-- No landing, no change. -/
theorem rank_gap {first last : Nat} (hle : first ≤ last)
    (h : ∀ p, first ≤ p → p < last → ¬ Landing bytes p) : rank bytes last = rank bytes first := by
  induction last, hle using Nat.le_induction with
  | base => rfl
  | succ last hle ih =>
    rw [rank, Nat.count_succ, if_neg (h last hle (Nat.lt_succ_self _))]
    exact ih fun p hfirst hlast => h p hfirst (by omega)

theorem rank_mono {first last : Nat} (h : first ≤ last) : rank bytes first ≤ rank bytes last :=
  Nat.count_monotone _ h

/-! ### Going back -/

/-- The landing at or before a position. -/
theorem backOver_spec (position : Nat) :
    backOver bytes position ≤ position
      ∧ (position ≤ bytes.length → Landing bytes (backOver bytes position + 1))
      ∧ ∀ p, backOver bytes position + 1 < p → p ≤ position + 1 → ¬ Landing bytes p := by
  induction position with
  | zero => exact ⟨Nat.le_refl _, fun _ => .inl rfl, fun p _ _ => by unfold backOver at *; omega⟩
  | succ position ih =>
    unfold backOver
    by_cases hcont : isCont (byteAt bytes (position + 1)) = true
    · rw [if_pos hcont]
      refine ⟨by omega, fun hle => ih.2.1 (by omega), ?_⟩
      intro p hlow hhigh
      by_cases hp : p = position + 1 + 1
      · rw [hp]
        exact not_landing_of_isCont (by omega) hcont
      · exact ih.2.2 p hlow (by omega)
    · rw [if_neg hcont]
      refine ⟨Nat.le_refl _, fun hle => .inr (isBoundary_succ.mpr ⟨hle, ?_⟩), fun p _ _ => by omega⟩
      simpa using hcont

/-- The loop of a negative count goes back one landing a round, and ends early at the first
    position only. -/
theorem backLoop_spec {n position : Nat} (hle : position ≤ bytes.length) :
    (backLoop bytes n position).1 ≤ n
      ∧ rank bytes ((backLoop bytes n position).2 + 1) + (n - (backLoop bytes n position).1)
        = rank bytes (position + 1)
      ∧ ((backLoop bytes n position).1 ≠ 0 → (backLoop bytes n position).2 = 0)
      ∧ ((backLoop bytes n position).1 < n →
          Landing bytes ((backLoop bytes n position).2 + 1)
            ∧ (backLoop bytes n position).2 < position) := by
  induction n generalizing position with
  | zero =>
    unfold backLoop
    exact ⟨Nat.le_refl _, rfl, fun h => absurd rfl h, fun h => absurd h (Nat.lt_irrefl _)⟩
  | succ n ih =>
    cases position with
    | zero =>
      unfold backLoop
      refine ⟨Nat.le_refl _, ?_, fun _ => rfl, fun h => absurd h (Nat.lt_irrefl _)⟩
      rw [Nat.sub_self]
      rfl
    | succ position =>
      unfold backLoop
      obtain ⟨hback, hlanding, hgap⟩ := @backOver_spec bytes position
      have hland := hlanding (by omega)
      obtain ⟨hleft, hrank, hstop, hland'⟩ := @ih (backOver bytes position) (by omega)
      refine ⟨by omega, ?_, hstop, ?_⟩
      · have hone : rank bytes (position + 1 + 1) = rank bytes (backOver bytes position + 1) + 1 := by
          rw [← rank_succ_of hland]
          exact rank_gap (by omega) fun p hlow hhigh => hgap p (by omega) (by omega)
        rw [hone, ← hrank]
        omega
      · intro hlt
        by_cases hagain : (backLoop bytes n (backOver bytes position)).1 < n
        · obtain ⟨hland'', hbefore⟩ := hland' hagain
          exact ⟨hland'', by omega⟩
        · -- The last round has been this one.
          cases n with
          | zero => exact ⟨hland, by show backOver bytes position < position + 1; omega⟩
          | succ n =>
            have hzero := hstop (by omega)
            rw [hzero]
            exact ⟨.inl rfl, by omega⟩

/-! ### Going forward -/

/-- Continuation bytes are skipped as far as the next boundary. -/
theorem skipContinuations_spec {fuel index : Nat} (hle : index ≤ bytes.length)
    (hfuel : bytes.length ≤ index + fuel) :
    index ≤ skipContinuations bytes fuel index
      ∧ IsBoundary bytes (skipContinuations bytes fuel index + 1)
      ∧ ∀ p, index ≤ p → p < skipContinuations bytes fuel index →
          isCont (byteAt bytes p) = true := by
  induction fuel generalizing index with
  | zero =>
    unfold skipContinuations
    refine ⟨Nat.le_refl _, isBoundary_succ.mpr ⟨hle, isCont_end (by omega)⟩, fun p _ _ => by omega⟩
  | succ fuel ih =>
    unfold skipContinuations
    by_cases hcont : isCont (byteAt bytes index) = true
    · rw [if_pos hcont]
      have hlt : index < bytes.length := by
        by_contra hend
        rw [isCont_end (by omega)] at hcont
        cases hcont
      obtain ⟨hlow, hboundary, hbetween⟩ := @ih (index + 1) (by omega) (by omega)
      refine ⟨by omega, hboundary, fun p hp hlast => ?_⟩
      by_cases heq : p = index
      · rw [heq]
        exact hcont
      · exact hbetween p (by omega) hlast
    · rw [if_neg hcont]
      refine ⟨Nat.le_refl _, isBoundary_succ.mpr ⟨hle, by simpa using hcont⟩, fun p _ _ => by omega⟩

/-- The loop of a positive count goes on one boundary a round, and ends early behind the string
    only. -/
theorem forwardLoop_spec {n position : Nat} (hstart : IsBoundary bytes (position + 1)) :
    (forwardLoop bytes n position).1 ≤ n
      ∧ position ≤ (forwardLoop bytes n position).2
      ∧ IsBoundary bytes ((forwardLoop bytes n position).2 + 1)
      ∧ rank bytes ((forwardLoop bytes n position).2 + 1) + (forwardLoop bytes n position).1
        = rank bytes (position + 1) + n
      ∧ ((forwardLoop bytes n position).1 ≠ 0 →
          (forwardLoop bytes n position).2 = bytes.length) := by
  induction n generalizing position with
  | zero =>
    unfold forwardLoop
    exact ⟨Nat.le_refl _, Nat.le_refl _, hstart, rfl, fun h => absurd rfl h⟩
  | succ n ih =>
    unfold forwardLoop
    have hle : position ≤ bytes.length := (isBoundary_succ.mp hstart).1
    by_cases hlt : position < bytes.length
    · rw [if_pos hlt]
      obtain ⟨hlow, hboundary, hbetween⟩ := @skipContinuations_spec bytes
        (bytes.length - (position + 1)) (position + 1) (by omega) (by omega)
      obtain ⟨hleft, hmoves, hland, hrank, hstop⟩ := ih hboundary
      refine ⟨by omega, by omega, hland, ?_, hstop⟩
      have hone : rank bytes (skipContinuations bytes (bytes.length - (position + 1))
          (position + 1) + 1) = rank bytes (position + 1) + 1 := by
        rw [← rank_succ_of (.inr hstart)]
        refine rank_gap (by omega) fun p hp hlast => ?_
        obtain ⟨p, rfl⟩ : ∃ q, p = q + 1 := ⟨p - 1, by omega⟩
        exact not_landing_of_isCont (by omega) (hbetween p (by omega) (by omega))
      rw [hrank, hone]
      omega
    · rw [if_neg hlt]
      exact ⟨Nat.le_refl _, Nat.le_refl _, hstart, rfl, fun _ => by omega⟩

/-! ### Both directions -/

/-- The move of `offset` reaches the landing the count leads to, or there is none. -/
theorem offsetMove_spec {n : Int} {position left stop : Nat} (hle : position ≤ bytes.length)
    (h : offsetMove bytes n position = .ok (left, stop)) :
    stop ≤ bytes.length
      ∧ (left = 0 → Reached bytes n (position + 1) (stop + 1))
      ∧ (left ≠ 0 → ∀ p, ¬ Reached bytes n (position + 1) p) := by
  unfold offsetMove at h
  by_cases hzero : n = 0
  · rw [if_pos hzero] at h
    cases h
    obtain ⟨hback, hland, hgap⟩ := @backOver_spec bytes position
    refine ⟨by omega, fun _ => ⟨hland hle, by omega, by omega, fun _ => ⟨by omega, hgap⟩⟩,
      fun hleft => absurd rfl hleft⟩
  · rw [if_neg hzero] at h
    by_cases hcont : isCont (byteAt bytes position) = true
    · rw [if_pos hcont] at h
      cases h
    · rw [if_neg hcont] at h
      by_cases hneg : n < 0
      · rw [if_pos hneg, Except.ok.injEq] at h
        obtain ⟨hleft, hrank, hstop, hland⟩ := backLoop_spec (n := n.natAbs) hle
        rw [h] at hleft hrank hstop hland
        simp only at hleft hrank hstop hland
        have hmono := @rank_mono bytes (stop + 1) (position + 1)
        refine ⟨?_, ?_, ?_⟩
        · by_cases hmoved : left < n.natAbs
          · have := (hland hmoved).2
            omega
          · rw [hstop (by omega)]
            omega
        · rintro rfl
          obtain ⟨hlanding, hbefore⟩ := hland (by omega)
          exact ⟨hlanding, by omega, fun _ => ⟨by omega, by omega⟩, by omega⟩
        · intro hne p hreached
          obtain ⟨-, hp⟩ := hreached.backward hneg
          rw [hstop hne, Nat.zero_add, rank_one] at hrank
          omega
      · rw [if_neg hneg, Except.ok.injEq] at h
        have hstart : IsBoundary bytes (position + 1) :=
          isBoundary_succ.mpr ⟨hle, by simpa using hcont⟩
        obtain ⟨hleft, hmoves, hboundary, hrank, hstop⟩ := forwardLoop_spec (n := n.natAbs - 1) hstart
        rw [h] at hleft hmoves hboundary hrank hstop
        simp only at hleft hmoves hboundary hrank hstop
        refine ⟨(isBoundary_succ.mp hboundary).1, ?_, ?_⟩
        · rintro rfl
          exact ⟨.inr hboundary, fun _ => ⟨by omega, by omega⟩, by omega, by omega⟩
        · intro hne p hreached
          obtain ⟨-, hp⟩ := hreached.forward (by omega)
          have hlast := @rank_mono bytes _ _ (landing_le hreached.landing).2
          rw [hstop hne] at hrank
          omega

/-! ### The second result -/

theorem and_high_bit (byte : UInt8) :
    (byte &&& 0x80 ≠ 0 ↔ 0x80 ≤ byte) ∧ (isCont byte = true → 0x80 ≤ byte) :=
  forall_byte (p := fun byte => (byte &&& 0x80 ≠ 0 ↔ 0x80 ≤ byte)
    ∧ (isCont byte = true → 0x80 ≤ byte)) (by decide +kernel) byte

theorem endLoop_succ (fuel last : Nat) :
    endLoop bytes fuel last + 1 = skipContinuations bytes fuel (last + 1) := by
  induction fuel generalizing last with
  | zero => rfl
  | succ fuel ih =>
    unfold endLoop skipContinuations
    split
    · exact ih (last + 1)
    · rfl

theorem offsetEnd_spec {position last : Nat} (hle : position ≤ bytes.length)
    (h : offsetEnd bytes position = .ok last) : EndsAt bytes (position + 1) (last + 1) := by
  unfold offsetEnd at h
  obtain ⟨hbit, hhigh⟩ := and_high_bit (byteAt bytes position)
  by_cases hmany : 0x80 ≤ byteAt bytes position
  · simp only [if_pos (hbit.mpr hmany)] at h
    by_cases hcont : isCont (byteAt bytes position) = true
    · rw [if_pos hcont] at h
      cases h
    · rw [if_neg hcont, Except.ok.injEq] at h
      have hlt : position < bytes.length := by
        by_contra hend
        rw [byteAt_of_length_le (by omega)] at hmany
        exact absurd hmany (by decide)
      obtain ⟨hlow, hboundary, hbetween⟩ := @skipContinuations_spec bytes
        (bytes.length - (position + 1)) (position + 1) (by omega) (by omega)
      rw [← endLoop_succ, h] at hlow hboundary hbetween
      have hstop := (isBoundary_succ.mp hboundary).1
      refine ⟨isBoundary_succ.mpr ⟨hle, by simpa using hcont⟩, ⟨hlow, by omega⟩, ?_, ?_⟩
      · intro hascii
        exact absurd hmany (UInt8.not_le.mpr hascii)
      · intro _
        refine ⟨hboundary, fun p hp hlast => ?_⟩
        obtain ⟨p, rfl⟩ : ∃ q, p = q + 1 := ⟨p - 1, by omega⟩
        rw [isBoundary_succ, hbetween p (by omega) (by omega)]
        simp
  · simp only [if_neg (fun hne => hmany (hbit.mp hne)), Except.ok.injEq] at h
    subst h
    have hcont : isCont (byteAt bytes position) = false := by
      cases hc : isCont (byteAt bytes position) with
      | false => rfl
      | true => exact absurd (hhigh hc) hmany
    exact ⟨isBoundary_succ.mpr ⟨hle, hcont⟩, ⟨Nat.le_refl _, by omega⟩, fun _ => rfl,
      fun h => absurd h hmany⟩

end Boundaries

/-! ### The answer -/

/-- What an answer of `offset` has to be: the landing the count leads to, with the end of its
    character in the 5.5 profile, or `nil` when there is no such landing. -/
def Answers (profile : LuaProfile) (bytes : List UInt8) (n : Int) (start : Nat) :
    Option (Nat × Option Nat) → Prop
  | none => ∀ position, ¬ Reached bytes n start position
  | some (position, last) =>
    Reached bytes n start position ∧ 1 ≤ position ∧ position ≤ bytes.length + 1
      ∧ (profile = .lua54 → last = none)
      ∧ (profile = .lua55 → ∃ stop, last = some stop ∧ EndsAt bytes position stop)

variable {bytes : List UInt8}

theorem offset_answers {profile : LuaProfile} {n : Int} {i : Option Int}
    {result : Option (Nat × Option Nat)} (h : offset profile bytes n i = .ok result) :
    ∃ start : Nat, (start : Int) = offsetStart bytes n i ∧ 1 ≤ start ∧ start ≤ bytes.length + 1
      ∧ Answers profile bytes n start result := by
  unfold offset at h
  by_cases hrange : offsetStart bytes n i < 1 ∨ offsetStart bytes n i > bytes.length + 1
  · simp only [if_pos hrange] at h
    cases h
  · simp only [if_neg hrange] at h
    obtain ⟨position, hposition⟩ : ∃ position : Nat, offsetStart bytes n i = position + 1 :=
      ⟨(offsetStart bytes n i - 1).toNat, by omega⟩
    refine ⟨position + 1, by omega, by omega, by omega, ?_⟩
    obtain ⟨⟨left, stop⟩, hmove, h⟩ := Check.bind_eq_ok.mp h
    rw [hposition, Int.add_sub_cancel, Int.toNat_natCast] at hmove
    obtain ⟨hstop, hreached, hnone⟩ := offsetMove_spec (by omega) hmove
    by_cases hleft : left = 0
    · have hland := hreached hleft
      rw [if_neg (not_not.mpr hleft)] at h
      cases profile with
      | lua54 =>
        cases h
        exact ⟨hland, by omega, by omega, fun _ => rfl, nofun⟩
      | lua55 =>
        obtain ⟨last, hlast, h⟩ := Check.bind_eq_ok.mp h
        cases h
        refine ⟨hland, by omega, by omega, nofun, fun _ => ?_⟩
        exact ⟨last + 1, rfl, offsetEnd_spec hstop hlast⟩
    · rw [if_pos hleft] at h
      cases h
      exact hnone hleft

/-! ### Valid strings -/

/-- A character is the same in the part of the string that holds it. -/
theorem decode_take {strict : Bool} {index behind code stop : Nat} (hbehind : behind ≤ stop)
    (h : decode bytes index strict = some (behind, code)) :
    decode (bytes.take stop) index strict = some (behind, code) := by
  obtain ⟨n, -, hnext, -⟩ := decode_eq_some h
  have hget : ∀ k < stop, (bytes.take stop)[k]? = bytes[k]? := by
    intro k hk
    exact List.getElem?_take_of_lt hk
  have hbyte : byteAt (bytes.take stop) index = byteAt bytes index := by
    rw [byteAt, byteAt, List.getD_eq_getElem?_getD, List.getD_eq_getElem?_getD,
      hget index (by omega)]
  have hcontinuations : ∀ count position code, position + count ≤ stop →
      continuations (bytes.take stop) position count code
        = continuations bytes position count code := by
    intro count
    induction count with
    | zero => intro _ _ _; rfl
    | succ count ih =>
      intro position code hposition
      unfold continuations
      rw [hget position (by omega)]
      cases bytes[position]? with
      | none => rfl
      | some next =>
        simp only
        rw [ih (position + 1) _ (by omega)]
  unfold decode at h ⊢
  rw [hbyte]
  cases hlead : leadByte (byteAt bytes index) with
  | none =>
    rw [hlead] at h
    cases h
  | some lead =>
    obtain ⟨count, bits⟩ := lead
    rw [hlead] at h
    simp only at h ⊢
    cases hcont : continuations bytes (index + 1) count bits with
    | none =>
      rw [hcont] at h
      cases h
    | some result =>
      have hcount : index + 1 + count ≤ stop := by
        rw [hcont] at h
        simp only at h
        split at h
        · cases h
        · simp only [Option.some.injEq, Prod.mk.injEq] at h
          omega
      rw [hcontinuations count (index + 1) bits hcount]
      exact h

/-- A positive count passes over as many characters. -/
theorem Characters.forward {strict : Bool} {index : Nat} {chars : List (Nat × Nat)}
    (h : Characters bytes strict index chars) (hindex : index ≤ bytes.length) {k : Nat}
    (hk : k ≤ chars.length) :
    ∃ stop, forwardLoop bytes k index = (0, stop) ∧ index ≤ stop ∧ stop ≤ bytes.length
      ∧ isCont (byteAt bytes stop) = false
      ∧ Characters (bytes.take stop) strict index (chars.take k) := by
  have hself : ∀ {index : Nat} {chars : List (Nat × Nat)},
      Characters bytes strict index chars → index ≤ bytes.length →
      ∃ stop, forwardLoop bytes 0 index = (0, stop) ∧ index ≤ stop ∧ stop ≤ bytes.length
        ∧ isCont (byteAt bytes stop) = false
        ∧ Characters (bytes.take stop) strict index (chars.take 0) := by
    intro index chars h hindex
    refine ⟨index, by unfold forwardLoop; rfl, Nat.le_refl _, hindex, h.not_isCont, ?_⟩
    rw [List.take_zero]
    exact .done (List.length_take_le _ _)
  induction h generalizing k with
  | done hend =>
    obtain rfl : k = 0 := by simpa using hk
    exact hself (.done hend) hindex
  | next hlt hdecode hrest ih =>
    rename_i index behind code rest
    cases k with
    | zero => exact hself (.next hlt hdecode hrest) hindex
    | succ k =>
      obtain ⟨hmoves, hbehind, hcont⟩ := decode_moves hlt hdecode
      obtain ⟨stop, hloop, hle, hstop, hlast, hchars⟩ := ih hbehind (by simpa using hk)
      refine ⟨stop, ?_, by omega, hstop, hlast, ?_⟩
      · unfold forwardLoop
        rw [if_pos hlt, @skipContinuations_eq bytes _ _ behind (by omega) (by omega)
          (fun p hp => hcont p (by omega)) hrest.not_isCont]
        exact hloop
      · rw [List.take_succ_cons]
        refine .next ?_ (decode_take hle hdecode) hchars
        rw [List.length_take]
        omega

/-- On a string of characters `offset` finds the character with a number, and as many characters lie
    before it. -/
theorem offset_of_len (profile : LuaProfile) {lax : Bool} {count k : Nat}
    (h : len bytes none none lax = .ok (.characters count)) (hk : k ≤ count) :
    ∃ position last, offset profile bytes (k + 1) none = .ok (some (position, last))
      ∧ len (bytes.take (position - 1)) none none lax = .ok (.characters k) := by
  obtain ⟨chars, hchars, rfl⟩ := len_whole_iff.mp h
  obtain ⟨stop, hloop, -, hstop, hlast, htaken⟩ := hchars.forward (Nat.zero_le _) hk
  have hmove : offsetMove bytes ((k : Int) + 1) 0 = .ok (0, stop) := by
    have habs : ((k : Int) + 1).natAbs - 1 = k := by omega
    rw [offsetMove, if_neg (by omega), if_neg (by simp [hchars.not_isCont]), if_neg (by omega),
      habs, hloop]
  have hstart : offsetStart bytes ((k : Int) + 1) none = 1 := by
    rw [offsetStart, if_pos (by omega)]
  have hlen : len (bytes.take (stop + 1 - 1)) none none lax = .ok (.characters k) := by
    rw [Nat.add_sub_cancel]
    refine len_whole_iff.mpr ⟨chars.take k, htaken, ?_⟩
    rw [List.length_take]
    omega
  cases profile with
  | lua54 =>
    refine ⟨stop + 1, none, ?_, hlen⟩
    unfold offset
    simp only [hstart]
    rw [if_neg (by omega)]
    show (offsetMove bytes ((k : Int) + 1) 0 >>= _) = _
    rw [hmove]
    rfl
  | lua55 =>
    obtain ⟨last, hend⟩ : ∃ last, offsetEnd bytes stop = .ok last := by
      unfold offsetEnd
      simp only [hlast, Bool.false_eq_true, if_false]
      split
      · exact ⟨_, rfl⟩
      · exact ⟨_, rfl⟩
    refine ⟨stop + 1, some (last + 1), ?_, hlen⟩
    unfold offset
    simp only [hstart]
    rw [if_neg (by omega)]
    show (offsetMove bytes ((k : Int) + 1) 0 >>= _) = _
    rw [hmove, Check.ok_bind]
    show (offsetEnd bytes stop >>= _) = _
    rw [hend]
    rfl

/-- **`utf8.offset`.**  An answer is the landing that the count leads to from the start, `nil` when
    there is none; the landings are the boundaries, and the first position of a string that starts
    within a character.  On a string of characters the position behind `k` of them is found. -/
theorem offset_boundaries (profile : LuaProfile) (bytes : List UInt8) :
    (∀ n i result, offset profile bytes n i = .ok result →
        ∃ start : Nat, (start : Int) = offsetStart bytes n i ∧ 1 ≤ start
          ∧ start ≤ bytes.length + 1 ∧ Answers profile bytes n start result)
      ∧ (isCont (byteAt bytes 0) = false → ∀ position,
          Landing bytes position ↔ IsBoundary bytes position)
      ∧ ∀ lax count k, len bytes none none lax = .ok (.characters count) → k ≤ count →
          ∃ position last, offset profile bytes (k + 1 : Nat) none = .ok (some (position, last))
            ∧ len (bytes.take (position - 1)) none none lax = .ok (.characters k) := by
  refine ⟨?_, ?_, ?_⟩
  · intro n i result h
    exact offset_answers h
  · intro hfirst position
    exact landing_iff (.inr hfirst)
  · intro lax count k hlen hk
    exact offset_of_len profile hlen hk

/-- The second character of `éa`, which has two bytes before it. -/
theorem offset_boundaries_second :
    ∃ position last, offset .lua55 [0xc3, 0xa9, 0x61] (1 + 1 : Nat) none = .ok (some (position, last))
      ∧ len ([0xc3, 0xa9, 0x61].take (position - 1)) none none false = .ok (.characters 1) :=
  (offset_boundaries .lua55 [0xc3, 0xa9, 0x61]).2.2 false 2 1 (by rfl) (by decide)

/-- A string that starts with a continuation byte: two characters back from its end there is no
    boundary, but `offset` stops at the first byte.  A continuation byte behind an ASCII byte does
    not belong to its character. -/
theorem offset_differs_continuation :
    offset .lua54 [0x80, 0x61] (-2) none = .ok (some (1, none))
      ∧ ¬ IsBoundary [0x80, 0x61] 1
      ∧ offset .lua55 [0x61, 0x80, 0x62] 1 none = .ok (some (1, some 1))
      ∧ ¬ IsBoundary [0x61, 0x80, 0x62] 2 :=
  ⟨by rfl, by decide, by rfl, by decide⟩

end RivetLua.Stdlib.Utf8
