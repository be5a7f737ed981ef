import RivetLua.Compiler.LexerProgress

namespace RivetLua.Compiler.Lexer

open RivetLua.Core Check

/-!
# Compiler — lines and columns of a source

A position is a matter of the text before it: its line counts the logical newlines, its column the
bytes since the last of them.  The bytes `\n` and `\r` side by side are one newline, taken from the
left, so a position inside of such a pair would count differently; the cursor never stops there.

* `breaks`, `positionAt` — the logical newlines of a text and the position behind a part of it;
* `LineBreak` — one newline, with the text it stands in front of;
* `Cursor.Step.unit` — one step takes a byte within a line, or one newline;
* `Located` — the cursor stands where the text it has read says, kept by every movement.
-/

/-! ### The position behind a text -/

/-- The logical newlines of a text: `\n`, `\r`, `\r\n` and `\n\r`, each counted once. -/
def breaks : List UInt8 → Nat
  | [] => 0
  | [byte] => if isLineBreak byte then 1 else 0
  | byte :: next :: rest =>
    if isLineBreak byte then
      if isBreakPair byte (some next) then breaks rest + 1 else breaks (next :: rest) + 1
    else breaks (next :: rest)

/-- The bytes behind the last newline of a text. -/
def lineLength (text : List UInt8) : Nat :=
  (text.reverse.takeWhile (fun byte => !isLineBreak byte)).length

/-- The position behind a text. -/
def positionAfter (text : List UInt8) : SourcePosition := ⟨breaks text + 1, lineLength text + 1⟩

/-- The position of an offset of the source. -/
def positionAt (input : List UInt8) (offset : Nat) : SourcePosition :=
  positionAfter (input.take offset)

-- `\n\r\n` is a pair and a newline of its own, and the byte behind it starts the third line
example : positionAt [0x61, 0x0a, 0x0d, 0x0a, 0x62] 4 = ⟨3, 1⟩ := by decide

theorem breaks_cons {byte : UInt8} (hbyte : isLineBreak byte = false) (rest : List UInt8) :
    breaks (byte :: rest) = breaks rest := by
  cases rest with
  | nil => simp [breaks, hbyte]
  | cons next rest => simp [breaks, hbyte]

/-- A newline at the start of a text, with what follows it. -/
inductive LineBreak : List UInt8 → List UInt8 → Prop where
  | single {byte : UInt8} {following : List UInt8} (hbyte : isLineBreak byte = true)
      (halone : isBreakPair byte following.head? = false) : LineBreak [byte] following
  | pair {byte next : UInt8} {following : List UInt8}
      (hpair : isBreakPair byte (some next) = true) : LineBreak [byte, next] following

/-- Both bytes of a pair are line breaks. -/
theorem isLineBreak_of_pair {byte next : UInt8} (h : isBreakPair byte (some next) = true) :
    isLineBreak byte = true ∧ isLineBreak next = true := by
  simp only [isBreakPair, Bool.or_eq_true, Bool.and_eq_true, beq_iff_eq, Option.some.injEq] at h
  obtain ⟨rfl, rfl⟩ | ⟨rfl, rfl⟩ := h <;> decide

/-- A pair is no longer one when the text ends earlier. -/
theorem isBreakPair_of_prefix {byte : UInt8} {s following : List UInt8} (hs : s <+: following)
    (halone : isBreakPair byte following.head? = false) : isBreakPair byte s.head? = false := by
  cases s with
  | nil => simp [isBreakPair]
  | cons next s =>
    obtain ⟨more, rfl⟩ := hs
    exact halone

/-- A newline counts once, and cuts nothing off the text behind it. -/
theorem LineBreak.breaks_append {text following s : List UInt8} (h : LineBreak text following)
    (hs : s <+: following) : breaks (text ++ s) = breaks s + 1 := by
  cases h with
  | single hbyte halone =>
    have halone := isBreakPair_of_prefix hs halone
    cases s with
    | nil => simp [breaks, hbyte]
    | cons next s =>
      rw [List.head?_cons] at halone
      simp [breaks, hbyte, halone]
  | pair hpair => simp [breaks, (isLineBreak_of_pair hpair).1, hpair]

theorem LineBreak.breaks_eq {text following : List UInt8} (h : LineBreak text following) :
    breaks text = 1 := by
  have hnil : breaks (text ++ []) = breaks [] + 1 := h.breaks_append List.nil_prefix
  simpa [breaks] using hnil

theorem LineBreak.all_break {text following : List UInt8} (h : LineBreak text following) :
    text ≠ [] ∧ ∀ byte ∈ text, isLineBreak byte = true := by
  cases h with
  | single hbyte halone => simpa using hbyte
  | pair hpair => simpa using isLineBreak_of_pair hpair

/-- A line starts behind a newline. -/
theorem LineBreak.lineLength_append {text following : List UInt8} (h : LineBreak text following)
    (before : List UInt8) : lineLength (before ++ text) = 0 := by
  obtain ⟨hne, hall⟩ := h.all_break
  obtain ⟨init, last, rfl⟩ := text.eq_nil_or_concat.resolve_left hne
  have hlast : isLineBreak last = true := hall last (by simp)
  simp [lineLength, hlast]

theorem lineLength_concat {byte : UInt8} (hbyte : isLineBreak byte = false)
    (before : List UInt8) : lineLength (before ++ [byte]) = lineLength before + 1 := by
  simp [lineLength, hbyte]

/-! ### The cursor stands where its text says -/

/-- What one step takes: a byte within a line, or one newline. -/
theorem Cursor.Step.unit {c c' : Cursor} (h : c.Step c') :
    ∃ text, c.rest = text ++ c'.rest ∧ c'.offset = c.offset + text.length
      ∧ ((∃ byte, text = [byte] ∧ isLineBreak byte = false
            ∧ c'.position = ⟨c.line, c.column + 1⟩)
        ∨ LineBreak text c'.rest ∧ c'.position = ⟨c.line + 1, 1⟩) := by
  obtain ⟨hne, limits, h⟩ := h
  unfold Cursor.advance at h
  split at h
  · exact absurd ‹c.rest = []› hne
  · rename_i byte rest hrest
    split at h
    · rename_i hbyte
      by_cases hpair : isBreakPair byte rest.head? = true
      · rw [if_pos hpair] at h
        obtain ⟨next, following, rfl⟩ : ∃ next following, rest = next :: following := by
          cases rest with
          | nil => simp [isBreakPair] at hpair
          | cons next following => exact ⟨next, following, rfl⟩
        simp only at h
        split at h
        · cases h
        · cases h
          exact ⟨[byte, next], by simp [hrest], rfl, .inr ⟨.pair hpair, rfl⟩⟩
      · rw [if_neg hpair] at h
        simp only at h
        split at h
        · cases h
        · cases h
          have halone : isBreakPair byte rest.head? = false := by simpa using hpair
          exact ⟨[byte], by simp [hrest], rfl, .inr ⟨.single hbyte (by simpa [hrest] using halone),
            rfl⟩⟩
    · rename_i hbyte
      cases h
      exact ⟨[byte], hrest, rfl, .inl ⟨byte, rfl, by simpa using hbyte, rfl⟩⟩

/-- The cursor has read the text before it: it stands at the position behind it, and no newline
    is cut in two there. -/
structure Located (before : List UInt8) (c : Cursor) : Prop where
  offset : c.offset = before.length
  position : c.position = positionAfter before
  apart : ∀ s, s <+: c.rest → breaks (before ++ s) = breaks before + breaks s

theorem Located.new (input : List UInt8) (profile : LuaProfile) :
    Located [] (.new input profile) :=
  ⟨rfl, rfl, fun s _ => by simp [breaks]⟩

/-- One step reads one byte or one newline. -/
theorem Located.step {before : List UInt8} {c c' : Cursor} (h : Located before c)
    (hstep : c.Step c') : ∃ text, c.rest = text ++ c'.rest ∧ Located (before ++ text) c' := by
  obtain ⟨text, hrest, hoffset, hunit⟩ := hstep.unit
  -- reading on from `before` is reading `text` first
  have happart : ∀ s, s <+: c'.rest →
      breaks (before ++ text ++ s) = breaks before + breaks (text ++ s) := by
    intro s hs
    rw [List.append_assoc]
    apply h.apart
    rw [hrest]
    exact List.prefix_append_right_inj text |>.mpr hs
  have hread := happart [] (List.nil_prefix)
  simp only [List.append_nil] at hread
  have hposition := h.position
  simp only [Cursor.position, positionAfter, SourcePosition.mk.injEq] at hposition
  refine ⟨text, hrest, by rw [hoffset, h.offset, List.length_append], ?_, ?_⟩
  · obtain ⟨byte, rfl, hbyte, hposition'⟩ | ⟨hbreak, hposition'⟩ := hunit
    · rw [hposition', positionAfter, hread, lineLength_concat hbyte, breaks_cons hbyte]
      simp only [breaks, SourcePosition.mk.injEq]
      omega
    · rw [hposition', positionAfter, hread, hbreak.lineLength_append, hbreak.breaks_eq]
      simp only [SourcePosition.mk.injEq, and_true]
      omega
  · intro s hs
    rw [happart s hs, hread]
    obtain ⟨byte, rfl, hbyte, -⟩ | ⟨hbreak, -⟩ := hunit
    · rw [List.singleton_append, breaks_cons hbyte, breaks_cons hbyte]
      simp [breaks]
    · rw [hbreak.breaks_append hs, hbreak.breaks_eq]
      omega

/-- Wherever the cursor moves to, it has read the text up to there. -/
theorem Located.moves {before : List UInt8} {c c' : Cursor} (h : Located before c)
    (hmoves : Moves c c') : ∃ text, c.rest = text ++ c'.rest ∧ Located (before ++ text) c' := by
  have hwalk := hmoves.walk
  clear hmoves
  induction hwalk with
  | refl => exact ⟨[], rfl, by simpa using h⟩
  | tail hwalk hstep ih =>
    obtain ⟨text, hrest, hlocated⟩ := ih
    obtain ⟨more, hmore, hlast⟩ := hlocated.step hstep
    exact ⟨text ++ more, by rw [hrest, hmore, List.append_assoc],
      by simpa [List.append_assoc] using hlast⟩

/-! ### Positions of the input -/

/-- The position belongs to the offset, and no newline lies on both sides of it. -/
structure Placed (input : List UInt8) (offset : Nat) (position : SourcePosition) : Prop where
  inside : offset ≤ input.length
  position : position = positionAt input offset
  uncut : breaks input = breaks (input.take offset) + breaks (input.drop offset)

theorem Located.placed {before : List UInt8} {c : Cursor} (h : Located before c) :
    Placed (before ++ c.rest) c.offset c.position := by
  have hoffset := h.offset
  have htake : (before ++ c.rest).take c.offset = before := by
    rw [hoffset, List.take_left']
    rfl
  have hdrop : (before ++ c.rest).drop c.offset = c.rest := by
    rw [hoffset, List.drop_left']
    rfl
  refine ⟨by simp [hoffset], ?_, ?_⟩
  · rw [positionAt, htake, h.position]
  · rw [htake, hdrop]
    exact h.apart c.rest (List.prefix_refl _)

end RivetLua.Compiler.Lexer
