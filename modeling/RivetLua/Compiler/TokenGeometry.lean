import RivetLua.Compiler.Comments

namespace RivetLua.Compiler.Lexer

open RivetLua.Core Check

/-!
# Compiler — where the tokens stand

The elements of a scan lie side by side: each starts where the one before it ends, and each takes
at least one byte.  So the tokens of a source stand apart and in order, and what lies between them
are the elements that are no tokens.

* `Tiles` — tokens and blanks side by side, up to the end of the input;
* `scanElements_tiles` — the loop of `scan` lays its elements side by side;
* `Geometry` — what this says about the tokens of a chunk;
* `lex_geometry` — the tokens of every source.
-/

/-! ### Tokens and blanks side by side -/

/-- The bytes of the input from one offset up to another. -/
def slice (input : List UInt8) (first last : Nat) : List UInt8 :=
  (input.drop first).take (last - first)

/-- The bytes from one offset up to another are spaces and newlines, or they are a comment. -/
def Blank (input : List UInt8) (first last : Nat) : Prop :=
  (∀ byte ∈ slice input first last, isSpace byte = true)
    ∨ IsComment (slice input first last) (input.drop last)

/-- The span of the token is not empty, and its positions are those of its ends. -/
structure Token.Stands (input : List UInt8) (token : Token) : Prop where
  nonempty : token.span.startByte < token.span.endByte
  start : Placed input token.span.startByte token.start
  stop : Placed input token.span.endByte token.stop

/-- From the offset on, the input consists of blanks and of the tokens in order. -/
inductive Tiles (input : List UInt8) : Nat → List Token → Prop where
  | done : Tiles input input.length []
  | blank {first last : Nat} {tokens : List Token} (hlt : first < last)
      (hblank : Blank input first last) (hrest : Tiles input last tokens) :
      Tiles input first tokens
  | token {token : Token} {tokens : List Token} (hstands : token.Stands input)
      (hrest : Tiles input token.span.endByte tokens) :
      Tiles input token.span.startByte (token :: tokens)

section Tiles

variable {input : List UInt8} {first : Nat} {tokens : List Token}

theorem Tiles.le_length (h : Tiles input first tokens) : first ≤ input.length := by
  induction h with
  | done => exact le_refl _
  | blank hlt hblank hrest ih => exact hlt.le.trans ih
  | token hstands hrest ih => exact hstands.nonempty.le.trans ih

theorem Tiles.stands (h : Tiles input first tokens) :
    ∀ token ∈ tokens, token.Stands input ∧ first ≤ token.span.startByte := by
  induction h with
  | done => simp
  | blank hlt hblank hrest ih =>
    intro token htoken
    exact ⟨(ih token htoken).1, hlt.le.trans (ih token htoken).2⟩
  | token hstands hrest ih =>
    intro token htoken
    rcases List.mem_cons.mp htoken with rfl | htoken
    · exact ⟨hstands, le_refl _⟩
    · exact ⟨(ih token htoken).1, hstands.nonempty.le.trans (ih token htoken).2⟩

/-- The tokens do not overlap. -/
theorem Tiles.pairwise (h : Tiles input first tokens) :
    tokens.Pairwise (fun token later => token.span.endByte ≤ later.span.startByte) := by
  induction h with
  | done => exact .nil
  | blank hlt hblank hrest ih => exact ih
  | token hstands hrest ih =>
    exact List.pairwise_cons.mpr ⟨fun later hlater => (hrest.stands later hlater).2, ih⟩

/-- A byte lies in the span of the token. -/
def Token.Covers (token : Token) (i : Nat) : Prop :=
  token.span.startByte ≤ i ∧ i < token.span.endByte

/-- A byte of a blank that no token reaches into. -/
def InBlank (input : List UInt8) (tokens : List Token) (i : Nat) : Prop :=
  ∃ first last, first ≤ i ∧ i < last ∧ last ≤ input.length ∧ Blank input first last
    ∧ ∀ token ∈ tokens, token.span.endByte ≤ first ∨ last ≤ token.span.startByte

/-- Every byte belongs to a token or to a blank.  The blank lies behind the offset, so that it is
    apart from the tokens before it as well. -/
theorem Tiles.cover (h : Tiles input first tokens) {i : Nat} (hfirst : first ≤ i)
    (hi : i < input.length) (hout : ∀ token ∈ tokens, ¬ token.Covers i) :
    ∃ start last, first ≤ start ∧ start ≤ i ∧ i < last ∧ last ≤ input.length
      ∧ Blank input start last
      ∧ ∀ token ∈ tokens, token.span.endByte ≤ start ∨ last ≤ token.span.startByte := by
  induction h with
  | done => exact absurd hfirst (not_le.mpr hi)
  | @blank first last tokens hlt hblank hrest ih =>
    by_cases hlast : i < last
    · exact ⟨first, last, le_refl _, hfirst, hlast, hrest.le_length, hblank,
        fun token htoken => .inr (hrest.stands token htoken).2⟩
    · obtain ⟨start, stop, hstart, hblank⟩ := ih (not_lt.mp hlast) hout
      exact ⟨start, stop, hlt.le.trans hstart, hblank⟩
  | @token token tokens hstands hrest ih =>
    have hend : token.span.endByte ≤ i := by
      by_contra hlt
      exact hout token (by simp) ⟨hfirst, not_le.mp hlt⟩
    obtain ⟨start, stop, hstart, hle, hlt, hstop, hblank, hapart⟩ :=
      ih hend fun later hlater => hout later (by simp [hlater])
    refine ⟨start, stop, hstands.nonempty.le.trans hstart, hle, hlt, hstop, hblank, ?_⟩
    intro later hlater
    rcases List.mem_cons.mp hlater with rfl | hlater
    · exact .inl hstart
    · exact hapart later hlater

end Tiles

/-! ### The scan lays its elements side by side -/

section Scan

variable {limits : CompileLimits} {fl : FloatArith} {c c' : Cursor} {tokens tokens' : List Token}

/-- The text between two cursors is a slice of the input. -/
theorem slice_of_located {before text : List UInt8} {c c' : Cursor} (h : Located before c)
    (hrest : c.rest = text ++ c'.rest) (h' : Located (before ++ text) c') :
    slice (before ++ c.rest) c.offset c'.offset = text
      ∧ (before ++ c.rest).drop c'.offset = c'.rest := by
  have hoffset : c'.offset = c.offset + text.length := by
    rw [h'.offset, h.offset, List.length_append]
  constructor
  · rw [slice, h.offset, List.drop_left', hoffset, h.offset, Nat.add_sub_cancel_left, hrest,
      List.take_left']
    · rfl
    · rfl
  · rw [h'.offset, hrest, ← List.append_assoc, List.drop_left']
    rfl

/-- The token of an element, or none. -/
theorem scanElement_tokens {byte : UInt8} (hpeek : c.peek = some byte)
    (h : scanElement limits fl byte c tokens = .ok (c', tokens')) :
    tokens' = tokens ∨ ∃ kind literal, tokens' = tokens ++ [tokenAt c.origin c' kind literal] := by
  obtain ⟨-, -, rfl⟩ | ⟨-, kind, literal, -, rfl⟩ | ⟨-, hnumber⟩ :=
    scanElement_cases (ne_nil_of_peek hpeek) h
  · exact .inl rfl
  · exact .inr ⟨kind, literal, rfl⟩
  · exact .inr (scanNumber_moves hnumber).2

/-- The elements of the rest of an input, which is read to its end. -/
theorem scanElements_tiles {fuel : Nat} {before : List UInt8} (hlocated : Located before c)
    (hfuel : c.rest.length ≤ fuel)
    (h : scanElements limits fl fuel c tokens = .ok (c', tokens')) :
    Located (before ++ c.rest) c' ∧ c'.rest = []
      ∧ ∃ later, tokens' = tokens ++ later ∧ Tiles (before ++ c.rest) c.offset later := by
  induction fuel generalizing c before tokens with
  | zero =>
    have hnil : c.rest = [] := List.length_eq_zero_iff.mp (Nat.le_zero.mp hfuel)
    cases h
    rw [hnil, List.append_nil]
    refine ⟨hlocated, rfl, [], by simp, ?_⟩
    rw [hlocated.offset]
    exact .done
  | succ fuel ih =>
    unfold scanElements at h
    split at h
    · rename_i hpeek
      have hnil : c.rest = [] := by simpa [Cursor.peek] using hpeek
      cases h
      rw [hnil, List.append_nil]
      refine ⟨hlocated, rfl, [], by simp, ?_⟩
      rw [hlocated.offset]
      exact .done
    · rename_i byte hpeek
      rw [bind_eq_ok] at h
      obtain ⟨⟨c₁, tokens₁⟩, helement, h⟩ := h
      have hmoves := scanElement_moves hpeek helement
      have hstrict := scanElement_strict hpeek helement
      obtain ⟨text, hrest, hnext⟩ := hlocated.moves hmoves
      have hinput : before ++ text ++ c₁.rest = before ++ c.rest := by
        rw [hrest, List.append_assoc]
      obtain ⟨hslice, hdrop⟩ := slice_of_located hlocated hrest hnext
      obtain ⟨hend, hdone, later, rfl, htiles⟩ :=
        ih hnext (by have := hmoves.rest_lt hstrict; omega) h
      rw [hinput] at hend htiles
      refine ⟨hend, hdone, ?_⟩
      rcases scanElement_tokens hpeek helement with rfl | ⟨kind, literal, rfl⟩
      · -- a space, a newline or a comment
        refine ⟨later, rfl, .blank hstrict ?_ htiles⟩
        obtain ⟨text', hrest', hblank⟩ := scanElement_blank hpeek helement
        obtain rfl : text' = text := List.append_cancel_right (hrest'.symm.trans hrest)
        rwa [Blank, hslice, hdrop]
      · refine ⟨tokenAt c.origin c₁ kind literal :: later, by simp, ?_⟩
        have hstands : (tokenAt c.origin c₁ kind literal).Stands (before ++ c.rest) := by
          refine ⟨hstrict, hlocated.placed, ?_⟩
          have hplaced := hnext.placed
          rwa [hinput] at hplaced
        exact .token hstands htiles

end Scan

/-! ### The tokens of a source -/

/-- Where the tokens of a chunk stand in its source. -/
structure Geometry (input : List UInt8) (chunk : LexedChunk) : Prop where
  sourceLen : chunk.sourceLen = input.length
  /-- The end token stands behind the last byte. -/
  last : ∃ position, chunk.tokens.getLast?
    = some ⟨.eof, ⟨input.length, input.length⟩, position, position, none⟩
  inRange : ∀ token ∈ chunk.tokens,
    token.span.startByte ≤ token.span.endByte ∧ token.span.endByte ≤ input.length
  increasing : chunk.tokens.Pairwise fun token later =>
    token.span.startByte < later.span.startByte
  disjoint : chunk.tokens.Pairwise fun token later => token.span.endByte ≤ later.span.startByte
  /-- What no token takes is a space, a newline or a part of a comment. -/
  blank : ∀ i, i < input.length → (∀ token ∈ chunk.tokens, ¬ token.Covers i) →
    InBlank input chunk.tokens i
  placed : ∀ token ∈ chunk.tokens,
    Placed input token.span.startByte token.start ∧ Placed input token.span.endByte token.stop

/-- Tokens and blanks side by side, with an end token behind them. -/
theorem Tiles.geometry {input : List UInt8} {body : List Token} {profile : LuaProfile}
    {position : SourcePosition} (h : Tiles input 0 body)
    (hplaced : Placed input input.length position) :
    Geometry input ⟨profile, input.length,
      body ++ [⟨.eof, ⟨input.length, input.length⟩, position, position, none⟩]⟩ := by
  have hbody : ∀ token ∈ body, token.span.startByte < token.span.endByte
      ∧ token.span.endByte ≤ input.length :=
    fun token htoken => ⟨(h.stands token htoken).1.nonempty, (h.stands token htoken).1.stop.inside⟩
  refine ⟨rfl, ⟨position, by simp⟩, ?_, ?_, ?_, ?_, ?_⟩
  · intro token htoken
    rcases List.mem_append.mp htoken with htoken | htoken
    · exact ⟨(hbody token htoken).1.le, (hbody token htoken).2⟩
    · obtain rfl := List.mem_singleton.mp htoken
      exact ⟨le_refl _, le_refl _⟩
  · refine List.pairwise_append.mpr ⟨?_, List.pairwise_singleton _ _, ?_⟩
    · refine h.pairwise.imp_of_mem ?_
      intro token later htoken _ hle
      exact lt_of_lt_of_le (hbody token htoken).1 hle
    · intro token htoken last hlast
      obtain rfl := List.mem_singleton.mp hlast
      exact lt_of_lt_of_le (hbody token htoken).1 (hbody token htoken).2
  · refine List.pairwise_append.mpr ⟨h.pairwise, List.pairwise_singleton _ _, ?_⟩
    intro token htoken last hlast
    obtain rfl := List.mem_singleton.mp hlast
    exact (hbody token htoken).2
  · intro i hi hout
    obtain ⟨first, last, -, hle, hlt, hlast, hblank, hapart⟩ :=
      h.cover (Nat.zero_le i) hi fun token htoken => hout token (by simp [htoken])
    refine ⟨first, last, hle, hlt, hlast, hblank, fun token htoken => ?_⟩
    rcases List.mem_append.mp htoken with htoken | htoken
    · exact hapart token htoken
    · obtain rfl := List.mem_singleton.mp htoken
      exact .inr hlast
  · intro token htoken
    rcases List.mem_append.mp htoken with htoken | htoken
    · exact ⟨(h.stands token htoken).1.start, (h.stands token htoken).1.stop⟩
    · obtain rfl := List.mem_singleton.mp htoken
      exact ⟨hplaced, hplaced⟩

/-- The scan of every source ends, and the tokens of a source that is accepted stand in order,
    apart from each other, at the lines and columns of their ends; only spaces, newlines and
    comments lie between them. -/
theorem lex_geometry (limits : CompileLimits) (fl : FloatArith) (input : List UInt8)
    (profile : LuaProfile) :
    (WellFounded (Round limits fl) ∧ LoopsEnd limits fl)
      ∧ ∀ chunk, lex limits fl input profile = .ok chunk → Geometry input chunk := by
  refine ⟨⟨round_wellFounded, loopsEnd⟩, fun chunk h => ?_⟩
  unfold lex at h
  split at h
  · cases h
  · simp only [scan, bind_eq_ok] at h
    obtain ⟨⟨c₁, tokens₁⟩, helements, ⟨c₂, tokens₂⟩, hemit, h⟩ := h
    cases h
    obtain ⟨rfl, rfl, -⟩ := emit_eq_ok_iff.mp hemit
    obtain ⟨hend, hdone, body, hbody, htiles⟩ :=
      scanElements_tiles (Located.new input profile) (le_refl _) helements
    have hoffset : c₂.offset = input.length := hend.offset
    have hplaced : Placed input c₂.offset c₂.position := by
      have hplaced := hend.placed
      rw [hdone, List.append_nil] at hplaced
      exact hplaced
    rw [hoffset] at hplaced
    rw [List.nil_append] at hbody
    rw [hbody, tokenAt, Cursor.origin, hoffset]
    exact htiles.geometry hplaced

-- `;`, a comment and a newline of two bytes, `;`
theorem lex_geometry_comment :
    Geometry [0x3b, 0x2d, 0x2d, 0x21, 0x0d, 0x0a, 0x3b] ⟨.lua54, 7,
      [⟨.symbol .semicolon, ⟨0, 1⟩, ⟨1, 1⟩, ⟨1, 2⟩, none⟩,
        ⟨.symbol .semicolon, ⟨6, 7⟩, ⟨2, 1⟩, ⟨2, 2⟩, none⟩,
        ⟨.eof, ⟨7, 7⟩, ⟨2, 2⟩, ⟨2, 2⟩, none⟩]⟩ :=
  (lex_geometry .standard .smallNat [0x3b, 0x2d, 0x2d, 0x21, 0x0d, 0x0a, 0x3b] .lua54).2 _ rfl

end RivetLua.Compiler.Lexer
