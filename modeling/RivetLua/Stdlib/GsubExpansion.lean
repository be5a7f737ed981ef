import RivetLua.Stdlib.Gsub

namespace RivetLua.Stdlib.Gsub

open RivetLua.Core
open StateProg
open Pattern (Capture Found Matcher)
open Utf8 (maxSize)

/-!
# Stdlib — what `string.gsub` appends

The reference takes a replacement text from left to right and writes down what each part of it stands
for.  The two passes of `gsub` are compared with it in lockstep: wherever the first one gives a
length, the second one appends the bytes, and the reference has as many.

* `captured`, `expand` — the reference;
* `FoundIn`, `MatchOf` — matches and their bounds;
* `passes_agree` — the two passes over a replacement text;
* `gsub_replacement` — replacement texts, answers and the result.
-/

/-! ### The reference -/

/-- The bytes of the subject from one place up to another. -/
def between (bytes : List UInt8) (first last : Nat) : List UInt8 :=
  (bytes.drop first).take (last - first)

/-- What `%index` stands for. -/
def captured (source : List UInt8) (found : Found) (index : Nat) : Option (List UInt8) :=
  if index = 0 ∨ (index = 1 ∧ found.captures = []) then
    some (between source found.start found.stop)
  else do
    let capture ← found.captures[index - 1]?
    let stop ← capture.stop
    if capture.position then some (decimal (capture.start + 1))
    else some (between source capture.start stop)

/-- What an escape stands for. -/
def expandMarker (source : List UInt8) (found : Found) (marker : UInt8) : Option (List UInt8) :=
  if marker = 0x25 then some [0x25]
  else if isAsciiDigit marker then captured source found (marker - 0x30).toNat
  else none

/-- What a replacement text stands for. -/
def expand (source : List UInt8) (found : Found) : List UInt8 → Option (List UInt8)
  | [] => some []
  | byte :: rest =>
    if byte = 0x25 then
      match rest with
      | [] => none
      | marker :: rest => do
        let expansion ← expandMarker source found marker
        let others ← expand source found rest
        some (expansion ++ others)
    else do
      let others ← expand source found rest
      some (byte :: others)

/-! ### Matches -/

/-- A match lies within the subject, and so do its captures. -/
structure FoundIn (source : List UInt8) (found : Found) : Prop where
  start_le : found.start ≤ found.stop
  stop_le : found.stop ≤ source.length
  captures : ∀ capture ∈ found.captures, ∀ stop, capture.stop = some stop →
    capture.start ≤ stop ∧ stop ≤ source.length

/-- A match that the matcher has found at some place of the subject, for some pattern. -/
def MatchOf (source : List UInt8) (found : Found) : Prop :=
  ∃ pattern limit start anchor,
    (Matcher.at ⟨source, pattern, limit⟩ start anchor 0).1 = .ok (some found)

theorem MatchOf.foundIn {source : List UInt8} {found : Found} (h : MatchOf source found) :
    FoundIn source found := by
  obtain ⟨pattern, limit, start, anchor, hat⟩ := h
  have hfaithful := (Pattern.at_settles (m := ⟨source, pattern, limit⟩) start anchor).faithful
    (fun _ => Pattern.searchPlaces_le) (Nat.zero_le limit)
  obtain ⟨-, hle, hstop, hcaptures⟩ := hfaithful.bounds found hat
  exact ⟨hle, hstop, hcaptures⟩

/-! ### Rules of programs -/

section Rules

variable {σ α β : Type}

theorem ofExcept_ok_bind (a : α) (f : α → Prog σ GsubError β) :
    (Prog.ofExcept (.ok a) >>= f) = f a := rfl

theorem modify_bind (f : σ → σ) (g : Unit → Prog σ GsubError β) (s : σ) :
    (Prog.modify f >>= g) s = g () (f s) := rfl

theorem get_bind (g : σ → Prog σ GsubError β) (s : σ) : (Prog.get >>= g) s = g s s := rfl

end Rules

@[simp] theorem push_source (bytes : List UInt8) (state : GsubState) :
    (state.push bytes).source = state.source := rfl

theorem push_push (first second : List UInt8) (state : GsubState) :
    (state.push first).push second = state.push (first ++ second) := by
  simp [GsubState.push]

theorem slice_of {bytes : List UInt8} {first last : Nat} (hfirst : first ≤ last)
    (hlast : last ≤ bytes.length) : slice bytes first last = .ok (between bytes first last) :=
  if_pos ⟨hfirst, hlast⟩

theorem minus_of {a b : Nat} (h : b ≤ a) : minus a b = .ok (a - b) := if_pos h

theorem checkedAdd_of {a b : Nat} (h : a + b < 2 ^ 64) : checkedAdd a b = .ok (a + b) := if_pos h

theorem checkedAdd_eq_ok {a b c : Nat} (h : checkedAdd a b = .ok c) : c = a + b ∧ c < 2 ^ 64 := by
  unfold checkedAdd at h
  split at h
  · cases h
    exact ⟨rfl, by assumption⟩
  · cases h

theorem readAt_of {bytes : List UInt8} {index : Nat} (h : index < bytes.length) :
    readAt bytes index = .ok bytes[index] := by
  rw [readAt, List.getElem?_eq_getElem h]
  rfl

theorem between_length {bytes : List UInt8} {first last : Nat} (hlast : last ≤ bytes.length) :
    (between bytes first last).length = last - first := by
  rw [between, List.length_take, List.length_drop]
  omega

theorem between_self (bytes : List UInt8) (first : Nat) : between bytes first first = [] := by
  simp [between]

theorem between_succ {bytes : List UInt8} {first last : Nat} (hfirst : first ≤ last)
    (hlast : last < bytes.length) :
    between bytes first (last + 1) = between bytes first last ++ [bytes[last]] := by
  rw [between, between, Nat.succ_sub hfirst, List.take_add_one, List.getElem?_drop,
    show first + (last - first) = last by omega, List.getElem?_eq_getElem hlast]
  rfl

/-! ### One escape -/

variable {source : List UInt8} {found : Found}

/-- The range of a capture is within the subject and stands for what the reference says. -/
theorem captureRange_eq_ok (hfound : FoundIn source found) {index first last : Nat}
    {position : Bool} (h : captureRange found index = .ok (first, last, position)) :
    captured source found index
        = some (if position then decimal (first + 1) else between source first last)
      ∧ first ≤ last ∧ last ≤ source.length := by
  unfold captureRange at h
  unfold captured
  simp only [List.length_eq_zero_iff] at h
  by_cases hwhole : index = 0 ∨ (index = 1 ∧ found.captures = [])
  · rw [if_pos hwhole] at h ⊢
    cases h
    exact ⟨rfl, hfound.start_le, hfound.stop_le⟩
  · rw [if_neg hwhole] at h ⊢
    obtain ⟨capture, hcapture, h⟩ := Check.bind_eq_ok.mp h
    obtain ⟨stop, hstop, h⟩ := Check.bind_eq_ok.mp h
    rw [Check.some?_eq_ok] at hcapture hstop
    cases h
    refine ⟨?_, hfound.captures capture (List.mem_of_getElem? hcapture) _ hstop⟩
    rw [hcapture, Option.bind_eq_bind, Option.bind_some, hstop, Option.bind_eq_bind,
      Option.bind_some]
    split <;> rfl

theorem positionBytes_eq_ok {first : Nat} {number : List UInt8}
    (h : positionBytes first = .ok number) : number = decimal (first + 1) := by
  unfold positionBytes at h
  split at h <;> cases h
  rfl

/-- Where the first pass takes the length of an escape, the second one appends as much. -/
theorem marker_agrees (hfound : FoundIn source found) {marker : UInt8} {extra : Nat}
    (h : markerLen found marker = .ok extra) :
    ∃ bytes, expandMarker source found marker = some bytes ∧ bytes.length = extra
      ∧ ∀ state : GsubState, state.source = source →
        GsubState.copyMarker found marker state = (.ok (), state.push bytes) := by
  unfold markerLen at h
  unfold expandMarker GsubState.copyMarker
  by_cases hpercent : marker = 0x25
  · rw [if_pos hpercent] at h ⊢
    cases h
    exact ⟨[0x25], rfl, rfl, fun state _ => by rw [if_pos hpercent]; rfl⟩
  · rw [if_neg hpercent] at h ⊢
    by_cases hdigit : isAsciiDigit marker = true
    · rw [if_pos hdigit] at h ⊢
      obtain ⟨⟨first, last, position⟩, hrange, h⟩ := Check.bind_eq_ok.mp h
      obtain ⟨hcaptured, hle, hlast⟩ := captureRange_eq_ok hfound hrange
      refine ⟨_, hcaptured, ?_⟩
      cases position with
      | true =>
        obtain ⟨number, hnumber, h⟩ := Check.bind_eq_ok.mp h
        cases h
        obtain rfl := positionBytes_eq_ok hnumber
        refine ⟨rfl, fun state _ => ?_⟩
        rw [if_neg hpercent, if_pos hdigit, hrange, ofExcept_ok_bind]
        show (Prog.ofExcept (positionBytes first) >>= _) state = _
        rw [hnumber, ofExcept_ok_bind]
        rfl
      | false =>
        have hlength : minus last first = .ok extra := h
        rw [minus_of hle] at hlength
        cases hlength
        refine ⟨between_length hlast, fun state hsource => ?_⟩
        rw [if_neg hpercent, if_pos hdigit, hrange, ofExcept_ok_bind]
        show (Prog.ofExcept (slice state.source first last) >>= _) state = _
        rw [hsource, slice_of hle hlast, ofExcept_ok_bind]
        rfl
    · rw [if_neg hdigit] at h
      cases h

/-! ### The two passes -/

theorem expand_literal {byte : UInt8} (hbyte : byte ≠ 0x25) (rest : List UInt8) :
    expand source found (byte :: rest)
      = (expand source found rest).map (byte :: ·) := by
  rw [expand.eq_def, Option.map_eq_bind]
  simp only [if_neg hbyte]
  rfl

theorem expand_escape {marker : UInt8} {bytes rest others : List UInt8}
    (hmarker : expandMarker source found marker = some bytes)
    (hrest : expand source found rest = some others) :
    expand source found (0x25 :: marker :: rest) = some (bytes ++ others) := by
  rw [expand.eq_def]
  simp only [if_true, hmarker, hrest]
  rfl

/-- The bytes behind the last escape. -/
theorem copyRest {text : List UInt8} {literalStart : Nat} (h : literalStart ≤ text.length)
    (state : GsubState) :
    (Prog.ofExcept (slice text literalStart text.length) >>=
        fun literal => Prog.modify (GsubState.push literal) : Run Unit) state
      = (.ok (), state.push (between text literalStart text.length)) := by
  rw [slice_of h (Nat.le_refl _), ofExcept_ok_bind]
  rfl

/-- **The two passes.**  Where the first pass gives a length, the rest of the text has an expansion
    of that length, and the second pass appends it behind the bytes it has still to copy. -/
theorem passes_agree (hfound : FoundIn source found) {text : List UInt8} {fuel cursor : Nat}
    (hfuel : text.length ≤ cursor + fuel) (hcursor : cursor ≤ text.length) {length total : Nat}
    (h : lengthLoop found text fuel cursor length = .ok total) :
    ∃ expansion, expand source found (text.drop cursor) = some expansion
      ∧ total = length + expansion.length
      ∧ ∀ literalStart ≤ cursor, ∀ state : GsubState, state.source = source →
        GsubState.copyLoop found text fuel cursor literalStart state
          = (.ok (), state.push (between text literalStart cursor ++ expansion)) := by
  induction fuel generalizing cursor length with
  | zero =>
    cases h
    obtain rfl : cursor = text.length := by omega
    refine ⟨[], by rw [List.drop_length]; rfl, rfl, fun literalStart hliteral state _ => ?_⟩
    rw [List.append_nil]
    exact copyRest hliteral state
  | succ fuel ih =>
    unfold lengthLoop at h
    by_cases hlt : cursor < text.length
    · rw [if_pos hlt, readAt_of hlt, Check.ok_bind] at h
      rw [List.drop_eq_getElem_cons hlt]
      by_cases hpercent : text[cursor] = 0x25
      · -- An escape: the literal bytes before it are copied first.
        rw [if_neg (not_not.mpr hpercent)] at h
        obtain ⟨marker, hmarker, h⟩ := Check.bind_eq_ok.mp h
        obtain ⟨extra, hextra, h⟩ := Check.bind_eq_ok.mp h
        obtain ⟨sum, hsum, h⟩ := Check.bind_eq_ok.mp h
        rw [Check.some?_eq_ok] at hmarker
        obtain ⟨hnext, hget⟩ := List.getElem?_eq_some_iff.mp hmarker
        obtain ⟨bytes, hbytes, rfl, hcopy⟩ := marker_agrees hfound hextra
        obtain ⟨rfl, -⟩ := checkedAdd_eq_ok hsum
        obtain ⟨others, hothers, rfl, hrest⟩ := ih (by omega) (by omega) h
        refine ⟨bytes ++ others, ?_, by simp [Nat.add_assoc], ?_⟩
        · rw [hpercent, List.drop_eq_getElem_cons hnext, hget]
          exact expand_escape hbytes hothers
        · intro literalStart hliteral state hsource
          unfold GsubState.copyLoop
          rw [if_pos hlt, readAt_of hlt, ofExcept_ok_bind, if_neg (not_not.mpr hpercent),
            slice_of hliteral hcursor, ofExcept_ok_bind, modify_bind, hmarker]
          show (GsubState.copyMarker found marker >>= fun _ =>
            GsubState.copyLoop found text fuel (cursor + 2) (cursor + 2)) _ = _
          rw [Prog.bind_apply_ok (hcopy (state.push _) hsource),
            hrest (cursor + 2) (Nat.le_refl _) (GsubState.push bytes (state.push _)) hsource,
            between_self, push_push, push_push]
          simp
      · rw [if_pos hpercent] at h
        obtain ⟨sum, hsum, h⟩ := Check.bind_eq_ok.mp h
        obtain ⟨rfl, -⟩ := checkedAdd_eq_ok hsum
        obtain ⟨others, hothers, rfl, hrest⟩ := ih (by omega) (by omega) h
        refine ⟨text[cursor] :: others, ?_, by simp only [List.length_cons]; omega, ?_⟩
        · rw [expand_literal hpercent, hothers]
          rfl
        · intro literalStart hliteral state hsource
          unfold GsubState.copyLoop
          rw [if_pos hlt, readAt_of hlt, ofExcept_ok_bind, if_pos hpercent,
            hrest literalStart (by omega) state hsource, between_succ hliteral hlt]
          simp
    · rw [if_neg hlt] at h
      cases h
      obtain rfl : cursor = text.length := by omega
      refine ⟨[], by rw [List.drop_length]; rfl, rfl, fun literalStart hliteral state _ => ?_⟩
      unfold GsubState.copyLoop
      rw [if_neg hlt, List.append_nil]
      exact copyRest hliteral state

/-! ### The first pass gives the length of every expansion -/

theorem captureRange_of_captured {index : Nat} {bytes : List UInt8}
    (h : captured source found index = some bytes) :
    ∃ range, captureRange found index = .ok range := by
  unfold captured at h
  unfold captureRange
  simp only [List.length_eq_zero_iff]
  by_cases hwhole : index = 0 ∨ (index = 1 ∧ found.captures = [])
  · rw [if_pos hwhole]
    exact ⟨_, rfl⟩
  · rw [if_neg hwhole] at h ⊢
    obtain ⟨capture, hcapture, h⟩ := Option.bind_eq_some_iff.mp h
    obtain ⟨stop, hstop, -⟩ := Option.bind_eq_some_iff.mp h
    refine ⟨(capture.start, stop, capture.position), ?_⟩
    rw [hcapture]
    show (Check.some? capture.stop GsubError.pattern >>= _) = _
    rw [hstop]
    rfl

theorem markerLen_of_expandMarker (hfound : FoundIn source found)
    (hsource : source.length + 1 < 2 ^ 63) {marker : UInt8} {bytes : List UInt8}
    (h : expandMarker source found marker = some bytes) :
    markerLen found marker = .ok bytes.length := by
  unfold expandMarker at h
  unfold markerLen
  by_cases hpercent : marker = 0x25
  · rw [if_pos hpercent] at h ⊢
    cases h
    rfl
  · rw [if_neg hpercent] at h ⊢
    by_cases hdigit : isAsciiDigit marker = true
    · rw [if_pos hdigit] at h ⊢
      obtain ⟨⟨first, last, position⟩, hrange⟩ := captureRange_of_captured h
      obtain ⟨hcaptured, hle, hlast⟩ := captureRange_eq_ok hfound hrange
      rw [hcaptured] at h
      cases h
      rw [hrange, Check.ok_bind]
      cases position with
      | true =>
        show (positionBytes first >>= _) = _
        rw [positionBytes, if_pos (by omega)]
        rfl
      | false =>
        show minus last first = .ok (between source first last).length
        rw [minus_of hle, between_length hlast]
    · rw [if_neg hdigit] at h
      cases h

/-- An expansion that fits into `usize` is measured. -/
theorem lengthLoop_of_expand (hfound : FoundIn source found)
    (hsource : source.length + 1 < 2 ^ 63) {text : List UInt8} {fuel cursor : Nat}
    (hfuel : text.length ≤ cursor + fuel) {length : Nat} {expansion : List UInt8}
    (h : expand source found (text.drop cursor) = some expansion)
    (hfits : length + expansion.length < 2 ^ 64) :
    lengthLoop found text fuel cursor length = .ok (length + expansion.length) := by
  induction fuel generalizing cursor length expansion with
  | zero =>
    rw [List.drop_eq_nil_of_le (by omega)] at h
    cases h
    rfl
  | succ fuel ih =>
    unfold lengthLoop
    by_cases hlt : cursor < text.length
    · rw [if_pos hlt, readAt_of hlt, Check.ok_bind]
      rw [List.drop_eq_getElem_cons hlt] at h
      by_cases hpercent : text[cursor] = 0x25
      · rw [if_neg (not_not.mpr hpercent)]
        rw [expand.eq_def] at h
        simp only [if_pos hpercent] at h
        by_cases hnext : cursor + 1 < text.length
        · rw [List.drop_eq_getElem_cons hnext] at h
          obtain ⟨bytes, hbytes, h⟩ := Option.bind_eq_some_iff.mp h
          obtain ⟨others, hothers, h⟩ := Option.bind_eq_some_iff.mp h
          cases h
          rw [List.length_append] at hfits ⊢
          rw [List.getElem?_eq_getElem hnext]
          show (markerLen found text[cursor + 1] >>= _) = _
          rw [markerLen_of_expandMarker hfound hsource hbytes, Check.ok_bind,
            checkedAdd_of (by omega), Check.ok_bind, ih (by omega) hothers (by omega),
            Nat.add_assoc]
        · rw [List.drop_eq_nil_of_le (by omega)] at h
          cases h
      · rw [if_pos hpercent]
        rw [expand_literal hpercent] at h
        obtain ⟨others, hothers, rfl⟩ := Option.map_eq_some_iff.mp h
        rw [List.length_cons] at hfits ⊢
        rw [checkedAdd_of (by omega), Check.ok_bind, ih (by omega) hothers (by omega),
          Nat.add_assoc, Nat.add_comm 1]
    · rw [if_neg hlt]
      rw [List.drop_eq_nil_of_le (by omega)] at h
      cases h
      rfl

/-! ### The first pass does not panic -/

/-- An error that is no panic. -/
def Proper {α : Type} (x : Except GsubError α) : Prop := x ≠ .error .panicked

theorem Proper.bind {α β : Type} {x : Except GsubError α} {f : α → Except GsubError β}
    (h : Proper x) (hf : ∀ a, x = .ok a → Proper (f a)) : Proper (x >>= f) := by
  cases x with
  | error e => exact fun heq => h (by cases heq; rfl)
  | ok a => exact hf a rfl

theorem proper_ok {α : Type} (a : α) : Proper (.ok a : Except GsubError α) := by
  unfold Proper
  simp

theorem proper_pattern {α : Type} (value : Option α) : Proper (Check.some? value .pattern) := by
  unfold Proper
  cases value <;> simp [Check.some?]

theorem checkedAdd_proper (a b : Nat) : Proper (checkedAdd a b) := by
  unfold Proper checkedAdd
  split <;> simp

theorem captureRange_proper (index : Nat) : Proper (captureRange found index) := by
  unfold captureRange
  split
  · exact proper_ok _
  · exact (proper_pattern _).bind fun _ _ => (proper_pattern _).bind fun _ _ => proper_ok _

theorem markerLen_proper (hfound : FoundIn source found) (marker : UInt8) :
    Proper (markerLen found marker) := by
  unfold markerLen
  split
  · exact proper_ok _
  · split
    · refine (captureRange_proper _).bind ?_
      rintro ⟨first, last, position⟩ hrange
      obtain ⟨-, hle, -⟩ := captureRange_eq_ok hfound hrange
      cases position with
      | true =>
        refine Proper.bind ?_ fun _ _ => proper_ok _
        unfold Proper positionBytes
        split <;> simp
      | false =>
        show Proper (minus last first)
        rw [minus_of hle]
        exact proper_ok _
    · simp [Proper]

theorem lengthLoop_proper (hfound : FoundIn source found) (text : List UInt8) (fuel cursor : Nat)
    (length : Nat) : Proper (lengthLoop found text fuel cursor length) := by
  induction fuel generalizing cursor length with
  | zero => exact proper_ok _
  | succ fuel ih =>
    unfold lengthLoop
    split
    · rename_i hlt
      rw [readAt_of hlt, Check.ok_bind]
      split
      · exact (checkedAdd_proper _ _).bind fun _ _ => ih _ _
      · exact (proper_pattern _).bind fun _ _ => (markerLen_proper hfound _).bind fun _ _ =>
          (checkedAdd_proper _ _).bind fun _ _ => ih _ _
    · exact proper_ok _

/-! ### Appending -/

namespace GsubState

variable {state : GsubState} {profile : LuaProfile}

/-- The state with another charge for its output. -/
def withCharge (state : GsubState) (charge : Nat) : GsubState :=
  { state with output := { state.output with charge := charge } }

@[simp] theorem withCharge_source (charge : Nat) : (state.withCharge charge).source = state.source :=
  rfl

/-- The test of the length passes or stops the call, and leaves the state. -/
theorem requireRoom_cases (extra : Nat) :
    requireRoom profile extra state = (.ok (), state)
      ∨ ((state.output.bytes.length + extra > maxSize profile)
        ∧ ∃ e, e ≠ .panicked ∧ requireRoom profile extra state = (.error e, state)) := by
  have hmax : maxSize profile < 2 ^ 64 := by cases profile <;> decide
  unfold requireRoom
  rw [get_bind]
  by_cases hsum : state.output.bytes.length + extra < 2 ^ 64
  · rw [checkedAdd_of hsum, ofExcept_ok_bind]
    by_cases hroom : state.output.bytes.length + extra > maxSize profile
    · rw [if_pos hroom]
      exact .inr ⟨hroom, .argument, by simp, rfl⟩
    · rw [if_neg hroom]
      exact .inl rfl
  · rw [checkedAdd, if_neg hsum]
    exact .inr ⟨by omega, .overflow, by simp, rfl⟩

/-- A reservation changes the charge only, or is refused. -/
theorem reserveExtra_cases (granted : Bool) (extra : Nat) :
    (∃ charge, reserveExtra granted extra state = (.ok (), state.withCharge charge))
      ∨ ((granted = true → ¬ state.output.bytes.length + extra < 2 ^ 64)
        ∧ ∃ e, e ≠ .panicked ∧ reserveExtra granted extra state = (.error e, state)) := by
  unfold reserveExtra
  by_cases hsum : state.output.bytes.length + extra < 2 ^ 64
  · rw [checkedAdd_of hsum]
    simp only
    split
    · exact .inl ⟨state.output.charge, rfl⟩
    · cases granted with
      | true => exact .inl ⟨_, rfl⟩
      | false => exact .inr ⟨by simp, .memory, by simp, rfl⟩
  · rw [checkedAdd, if_neg hsum]
    exact .inr ⟨fun _ => hsum, .overflow, by simp, rfl⟩

/-- The output grows by the bytes. -/
theorem append_cases (granted : Bool) (bytes : List UInt8) :
    (∃ charge, append profile granted bytes state = (.ok (), (state.withCharge charge).push bytes))
      ∨ ∃ e, e ≠ .panicked ∧ append profile granted bytes state = (.error e, state) := by
  unfold append appendBytes
  rcases @requireRoom_cases state profile bytes.length with
    hroom | ⟨-, e, he, hroom⟩
  · rcases @reserveExtra_cases state granted bytes.length with
      ⟨charge, hreserve⟩ | ⟨-, e, he, hreserve⟩
    · left
      refine ⟨charge, ?_⟩
      rw [Prog.bind_apply_ok hroom, Prog.bind_apply_ok hreserve]
      rfl
    · right
      refine ⟨e, he, ?_⟩
      rw [Prog.bind_apply_ok hroom, Prog.bind_apply_error hreserve]
  · right
    exact ⟨e, he, Prog.bind_apply_error hroom⟩

/-! ### Replacement texts -/

/-- What `append_text` does with a replacement text: it appends the expansion, which is as long as
    the first pass has said, or it stops with an error and changes nothing; and it appends whenever
    the expansion exists, is not too long and the ledger has room for it. -/
structure TextAppended (profile : LuaProfile) (granted : Bool) (state : GsubState)
    (text : List UInt8) (found : Found) : Prop where
  outcome :
    (∃ expansion charge, expand state.source found text = some expansion
      ∧ state.textOutputLen found = .ok expansion.length
      ∧ appendText profile granted found state
        = (.ok (), { (state.withCharge charge).push expansion with changed := true }))
    ∨ ∃ e, e ≠ .panicked ∧ appendText profile granted found state = (.error e, state)
  appends : granted = true → state.source.length + 1 < 2 ^ 63 →
    ∀ expansion, expand state.source found text = some expansion →
      state.output.bytes.length + expansion.length ≤ maxSize profile →
      (appendText profile granted found state).1 = .ok ()

theorem appendText_spec {text : List UInt8} (htext : state.replacement = .text text)
    {found : Found} (hfound : FoundIn state.source found) (granted : Bool) :
    TextAppended profile granted state text found := by
  have hmax : maxSize profile < 2 ^ 64 := by cases profile <;> decide
  have hpass : state.textOutputLen found = lengthLoop found text text.length 0 0 := by
    rw [textOutputLen, htext]
  have hrun : appendText profile granted found state
      = (Prog.ofExcept (lengthLoop found text text.length 0 0) >>= fun outputLen =>
        requireRoom profile outputLen >>= fun _ => reserveExtra granted outputLen >>= fun _ =>
          copyLoop found text text.length 0 0 >>= fun _ =>
            Prog.modify fun state => { state with changed := true }) state := by
    unfold appendText
    rw [get_bind, hpass]
    simp only [htext]
  -- Both parts follow from one case analysis of the length, the room and the reservation.
  rcases hlength : lengthLoop found text text.length 0 0 with e | total
  · have hstop : appendText profile granted found state = (.error e, state) := by
      rw [hrun, hlength]
      rfl
    refine ⟨.inr ⟨e, ?_, hstop⟩, ?_⟩
    · rintro rfl
      exact lengthLoop_proper hfound _ _ _ _ hlength
    · intro _ hsource expansion hexpansion hroom
      have hmeasured := @lengthLoop_of_expand _ found hfound hsource text text.length 0
        (Nat.le_add_left _ _) 0 expansion (by simpa using hexpansion) (by omega)
      rw [hlength] at hmeasured
      cases hmeasured
  · obtain ⟨expansion, hexpansion, htotal, hcopy⟩ := @passes_agree _ found hfound text text.length 0
      (Nat.le_add_left _ _) (Nat.zero_le _) _ _ hlength
    rw [List.drop_zero] at hexpansion
    rw [Nat.zero_add] at htotal
    subst htotal
    rw [hlength, ofExcept_ok_bind] at hrun
    rcases @requireRoom_cases state profile expansion.length with
      hroom | ⟨hlong, e, he, hroom⟩
    · rcases @reserveExtra_cases state granted expansion.length with
        ⟨charge, hreserve⟩ | ⟨hrefused, e, he, hreserve⟩
      · have hall : appendText profile granted found state
            = (.ok (), { (state.withCharge charge).push expansion with changed := true }) := by
          rw [hrun, Prog.bind_apply_ok hroom, Prog.bind_apply_ok hreserve,
            Prog.bind_apply_ok (hcopy 0 (Nat.le_refl _) (state.withCharge charge) rfl),
            between_self]
          rfl
        refine ⟨.inl ⟨expansion, charge, hexpansion, hpass.trans hlength, hall⟩, ?_⟩
        intro _ _ _ _ _
        rw [hall]
      · refine ⟨.inr ⟨e, he, ?_⟩, ?_⟩
        · rw [hrun, Prog.bind_apply_ok hroom, Prog.bind_apply_error hreserve]
        · intro hgranted _ other hother hfits
          rw [hexpansion] at hother
          cases hother
          exact absurd (by omega) (hrefused hgranted)
    · refine ⟨.inr ⟨e, he, ?_⟩, ?_⟩
      · rw [hrun, Prog.bind_apply_error hroom]
      · intro _ _ other hother hfits
        rw [hexpansion] at hother
        cases hother
        omega

/-! ### Answers -/

/-- What `append_answer` does with an answer to a match: it appends the match for `nil` or `false`
    and the answer's own bytes otherwise, as many as `answer_len` has said, or it stops with an error
    and appends nothing. -/
def AnswerAppended (withBytes : Value → Except GsubError (List UInt8)) (profile : LuaProfile)
    (owned granted : Bool) (state : GsubState) (found : Found) (value : Value) : Prop :=
  (∃ bytes charge,
    (if isFalsy value then bytes = between state.source found.start found.stop
      else withBytes value = .ok bytes)
    ∧ state.answerLen withBytes value = .ok bytes.length
    ∧ appendAnswer withBytes profile owned granted value state
      = (.ok (), { (state.withCharge charge).push bytes with
          awaiting := none, changed := state.changed || !isFalsy value }))
  ∨ ∃ e, appendAnswer withBytes profile owned granted value state
      = (.error e, { state with awaiting := none })

theorem appendAnswer_spec (withBytes : Value → Except GsubError (List UInt8)) {found : Found}
    (hfound : FoundIn state.source found)
    (hawaiting : state.awaiting = some (found.start, found.stop)) (owned granted : Bool)
    (value : Value) : AnswerAppended withBytes profile owned granted state found value := by
  have htake : takeAwaiting state
      = (.ok (found.start, found.stop), { state with awaiting := none }) := by
    unfold takeAwaiting
    rw [get_bind, hawaiting]
    rfl
  have hrun : appendAnswer withBytes profile owned granted value state = _ :=
    Prog.bind_apply_ok htake
  unfold AnswerAppended answerLen
  simp only at hrun
  by_cases hfalsy : isFalsy value = true
  · rw [if_pos hfalsy, get_bind] at hrun
    simp only [if_pos hfalsy]
    rw [slice_of hfound.start_le hfound.stop_le, ofExcept_ok_bind] at hrun
    rcases @append_cases { state with awaiting := none } profile granted
      (between state.source found.start found.stop) with ⟨charge, happend⟩ | ⟨e, -, happend⟩
    · left
      refine ⟨_, charge, rfl, ?_, ?_⟩
      · rw [hawaiting]
        show minus found.stop found.start = _
        rw [minus_of hfound.start_le, between_length hfound.stop_le]
      · rw [hrun, happend, hfalsy, Bool.not_true, Bool.or_false]
        rfl
    · right
      exact ⟨e, hrun.trans happend⟩
  · rw [if_neg hfalsy] at hrun
    simp only [if_neg hfalsy]
    rcases hbytes : withBytes value with e | bytes
    · right
      refine ⟨e, ?_⟩
      rw [hrun, hbytes]
      rfl
    · rw [hbytes, ofExcept_ok_bind] at hrun
      cases owned with
      | false => exact .inr ⟨.memory, hrun⟩
      | true =>
        rw [if_pos rfl] at hrun
        rcases @append_cases { state with awaiting := none } profile granted
          bytes with ⟨charge, happend⟩ | ⟨e, -, happend⟩
        · left
          refine ⟨bytes, charge, rfl, rfl, ?_⟩
          have hnot : isFalsy value = false := by simpa using hfalsy
          rw [hrun, Prog.bind_apply_ok happend, hnot, Bool.not_false, Bool.or_true]
          rfl
        · right
          exact ⟨e, by rw [hrun, Prog.bind_apply_error happend]⟩

/-! ### Runs of the driver -/

/-- A run of the driver: turns that succeed one after the other, with matches of the subject. -/
inductive Runs (withBytes : Value → Except GsubError (List UInt8)) (profile : LuaProfile) :
    GsubState → List Turn → GsubState → Prop where
  | nil (state : GsubState) : Runs withBytes profile state [] state
  | cons {state next last : GsubState} {turn : Turn} {turns : List Turn}
      (found : ∀ found, turn.found? = some found → MatchOf state.source found)
      (turned : advance withBytes profile turn state = (.ok (), next))
      (rest : Runs withBytes profile next turns last) :
      Runs withBytes profile state (turn :: turns) last

/-- What every turn keeps: the subject, and a cursor within it. -/
structure Kept (first state : GsubState) : Prop where
  original : state.original = first.original
  source : state.source = first.source
  cursor_le : state.cursor ≤ first.source.length

variable {withBytes : Value → Except GsubError (List UInt8)}

/-- The bookkeeping of a match leaves the cursor behind it. -/
theorem countMatch_eq_ok {found : Found} {next : GsubState}
    (h : countMatch found state = (.ok (), next)) :
    next.original = state.original ∧ next.source = state.source ∧ next.cursor = found.stop
      ∧ next.changed = state.changed ∧ next.replacement = state.replacement := by
  unfold countMatch at h
  split at h <;> cases h
  exact ⟨rfl, rfl, rfl, rfl, rfl⟩

/-- A text that is appended has been a text. -/
theorem appendText_eq_ok {found : Found} (hfound : FoundIn state.source found) {granted : Bool}
    {next : GsubState} (h : appendText profile granted found state = (.ok (), next)) :
    next.original = state.original ∧ next.source = state.source ∧ next.cursor = state.cursor
      ∧ next.changed = true := by
  cases htext : state.replacement with
  | text text =>
    rcases (@appendText_spec state profile _ htext _ hfound granted).outcome with
      ⟨expansion, charge, -, -, hrun⟩ | ⟨e, -, hrun⟩
    · rw [hrun] at h
      cases h
      exact ⟨rfl, rfl, rfl, rfl⟩
    · rw [hrun] at h
      cases h
  | function value =>
    unfold appendText textOutputLen at h
    rw [get_bind, htext] at h
    cases h
  | table value =>
    unfold appendText textOutputLen at h
    rw [get_bind, htext] at h
    cases h

/-- One turn. -/
theorem advance_spec {first next : GsubState} {turn : Turn} (hkept : Kept first state)
    (hmatch : ∀ found, turn.found? = some found → MatchOf state.source found)
    (h : advance withBytes profile turn state = (.ok (), next)) :
    Kept first next ∧ next.changed = (state.changed || turn.replaces) := by
  cases turn with
  | noMatch granted =>
    change copyByte profile granted state = _ at h
    unfold copyByte at h
    rw [get_bind] at h
    show _ ∧ next.changed = (state.changed || false)
    rw [Bool.or_false]
    by_cases hlt : state.cursor < state.source.length
    · rw [if_pos hlt, readAt_of hlt, ofExcept_ok_bind] at h
      rcases @append_cases state profile granted
        [state.source[state.cursor]] with ⟨charge, happend⟩ | ⟨e, -, happend⟩
      · rw [Prog.bind_apply_ok happend] at h
        cases h
        exact ⟨⟨hkept.original, hkept.source, hkept.source ▸ hlt⟩, rfl⟩
      · rw [Prog.bind_apply_error happend] at h
        cases h
    · rw [if_neg hlt] at h
      cases h
      exact ⟨⟨hkept.original, hkept.source, hkept.cursor_le⟩, rfl⟩
  | text found granted =>
    obtain ⟨_, middle, hcount, h⟩ := Prog.bind_eq_ok h
    obtain ⟨horiginal, hsource, hcursor, -, -⟩ := countMatch_eq_ok hcount
    have hfound := (hmatch found rfl).foundIn
    obtain ⟨horiginal', hsource', hcursor', hchanged⟩ := appendText_eq_ok (hsource ▸ hfound) h
    refine ⟨⟨?_, ?_, ?_⟩, ?_⟩
    · rw [horiginal', horiginal, hkept.original]
    · rw [hsource', hsource, hkept.source]
    · rw [hcursor', hcursor, ← hkept.source]
      exact hfound.stop_le
    · rw [hchanged]
      exact (Bool.or_true _).symm
  | answer found value owned granted =>
    obtain ⟨_, middle, hcount, h⟩ := Prog.bind_eq_ok h
    obtain ⟨horiginal, hsource, hcursor, hchanged, -⟩ := countMatch_eq_ok hcount
    have hfound := (hmatch found rfl).foundIn
    rw [modify_bind] at h
    rcases @appendAnswer_spec { middle with awaiting := some (found.start, found.stop) } profile
      withBytes found (hsource ▸ hfound) rfl owned granted value with ⟨bytes, charge, -, -, hrun⟩ | ⟨e, hrun⟩
    · rw [hrun] at h
      cases h
      refine ⟨⟨?_, ?_, ?_⟩, ?_⟩
      · exact horiginal.trans hkept.original
      · exact hsource.trans hkept.source
      · show middle.cursor ≤ _
        rw [hcursor, ← hkept.source]
        exact hfound.stop_le
      · show (middle.changed || !isFalsy value) = _
        rw [hchanged]
        rfl
    · rw [hrun] at h
      cases h

/-- A whole run: something has changed exactly when a turn has replaced its match. -/
theorem runs_spec {first last : GsubState} {turns : List Turn} (hkept : Kept first state)
    (h : Runs withBytes profile state turns last) :
    Kept first last ∧ last.changed = (state.changed || turns.any Turn.replaces) := by
  induction h with
  | nil state => exact ⟨hkept, (Bool.or_false _).symm⟩
  | cons hmatch hturned _ ih =>
    obtain ⟨hkept', hchanged⟩ := advance_spec hkept hmatch hturned
    obtain ⟨hlast, hchanged'⟩ := ih hkept'
    refine ⟨hlast, ?_⟩
    rw [hchanged', hchanged, List.any_cons, Bool.or_assoc]

/-! ### The result -/

/-- The subject as it is returned when nothing was replaced. -/
def unchanged (state : GsubState) : GsubResult :=
  if isNumber state.original then .converted state.source else .kept state.original

/-- What `finish` returns: the subject when nothing was replaced, else the output with the rest of
    the subject behind it; it may be refused room. -/
structure Finished (profile : LuaProfile) (state : GsubState) (replaced : Bool) : Prop where
  outcome : ∀ granted allocated returned,
    (finish profile granted allocated returned state).1
        = .ok (if replaced
            then .built (state.output.bytes
              ++ between state.source state.cursor state.source.length)
            else unchanged state)
      ∨ ∃ e, e ≠ .panicked ∧ (finish profile granted allocated returned state).1 = .error e
  returns : (replaced = true → state.output.bytes.length
        + (state.source.length - state.cursor) ≤ maxSize profile) →
    ∃ result, (finish profile true true true state).1 = .ok result

/-- The result before the vector of the results is reserved. -/
theorem buildResult_cases (hcursor : state.cursor ≤ state.source.length) (granted allocated : Bool) :
    (buildResult profile granted allocated state).1
        = .ok (if state.changed then .built (state.output.bytes
            ++ between state.source state.cursor state.source.length) else unchanged state)
      ∨ ((granted = true → allocated = true → state.changed = true ∧
          state.output.bytes.length + (state.source.length - state.cursor) > maxSize profile)
        ∧ ∃ e, e ≠ .panicked ∧ (buildResult profile granted allocated state).1 = .error e) := by
  have hmax : maxSize profile < 2 ^ 64 := by cases profile <;> decide
  unfold buildResult
  rw [get_bind]
  by_cases hchanged : state.changed = true
  · simp only [if_pos hchanged]
    rw [slice_of hcursor (Nat.le_refl _), ofExcept_ok_bind]
    have hlength : (between state.source state.cursor state.source.length).length
        = state.source.length - state.cursor := between_length (Nat.le_refl _)
    rcases @requireRoom_cases state profile
      (between state.source state.cursor state.source.length).length with
      hroom | ⟨hlong, e, he, hroom⟩
    · rw [Prog.bind_apply_ok hroom]
      unfold appendBytes
      rcases @reserveExtra_cases state granted
        (between state.source state.cursor state.source.length).length with
        ⟨charge, hreserve⟩ | ⟨hrefused, e, he, hreserve⟩
      · have happend : (reserveExtra granted
              (between state.source state.cursor state.source.length).length >>= fun _ =>
              Prog.modify (push (between state.source state.cursor state.source.length))) state
            = (.ok (), (state.withCharge charge).push
              (between state.source state.cursor state.source.length)) := by
          rw [Prog.bind_apply_ok hreserve]
          rfl
        rw [Prog.bind_apply_ok happend, get_bind]
        cases allocated with
        | true => exact .inl rfl
        | false => exact .inr ⟨by simp, .memory, by simp, rfl⟩
      · refine .inr ⟨?_, e, he, ?_⟩
        · intro hgranted _
          refine ⟨hchanged, ?_⟩
          have := hrefused hgranted
          omega
        · rw [Prog.bind_apply_error (Prog.bind_apply_error hreserve)]
    · refine .inr ⟨fun _ _ => ⟨hchanged, hlength ▸ hlong⟩, e, he, ?_⟩
      rw [Prog.bind_apply_error hroom]
  · simp only [if_neg hchanged]
    by_cases hnumber : isNumber state.original = true
    · rw [if_pos hnumber, unchanged, if_pos hnumber]
      cases allocated with
      | true => exact .inl rfl
      | false => exact .inr ⟨by simp, .memory, by simp, rfl⟩
    · rw [if_neg hnumber, unchanged, if_neg hnumber]
      exact .inl rfl

theorem finish_spec (hcursor : state.cursor ≤ state.source.length) :
    Finished profile state state.changed := by
  constructor
  · intro granted allocated returned
    unfold finish
    rw [Prog.bind_apply]
    rcases @buildResult_cases state profile hcursor granted allocated with
      hresult | ⟨-, e, he, hresult⟩
    · rcases hrun : buildResult profile granted allocated state with ⟨outcome, last⟩
      rw [hrun] at hresult
      simp only at hresult
      subst hresult
      cases returned with
      | true => exact .inl rfl
      | false => exact .inr ⟨.memory, by simp, rfl⟩
    · rcases hrun : buildResult profile granted allocated state with ⟨outcome, last⟩
      rw [hrun] at hresult
      simp only at hresult
      subst hresult
      exact .inr ⟨e, he, rfl⟩
  · intro hroom
    unfold finish
    rw [Prog.bind_apply]
    rcases @buildResult_cases state profile hcursor true true with
      hresult | ⟨hlong, -⟩
    · rcases hrun : buildResult profile true true state with ⟨outcome, last⟩
      rw [hrun] at hresult
      simp only at hresult
      subst hresult
      exact ⟨_, rfl⟩
    · obtain ⟨hchanged, hlong⟩ := hlong rfl rfl
      exact absurd (hroom hchanged) (by omega)

end GsubState

open GsubState

/-- `%1-%%` for the match `a` of `ab`, with its only capture a position. -/
example : expand [0x61, 0x62] ⟨0, 1, [⟨0, some 0, true⟩]⟩ [0x25, 0x31, 0x2d, 0x25, 0x25]
    = some [0x31, 0x2d, 0x25] := by rfl

end RivetLua.Stdlib.Gsub
