import RedRouter.Lib.RegexLanguage

/-!
# Texts in pieces

A search under the `g` flag cuts a text into pieces: those that it has found,
and what stands between them.  A `Matcher` is such a search, with the law that
the pieces are the text.  `Matcher.ofPattern` is the one of a pattern.  An
empty match is no piece, and the search goes on one unit after it.

`matchAt_of_pieces` says what a found piece is: a match of the pattern at its
place, with the unit before it in view.
-/

namespace RedRouter

open List

/-- A piece of a text: kept as it is, or found. -/
inductive Piece where
  | kept (text : JsString)
  | found (text : JsString)
deriving DecidableEq

namespace Piece

def text : Piece → JsString
  | kept text => text
  | found text => text

def joined (pieces : List Piece) : JsString := pieces.flatMap text

def foundTexts : List Piece → List JsString
  | [] => []
  | kept _ :: pieces => foundTexts pieces
  | found text :: pieces => text :: foundTexts pieces

@[simp] theorem joined_nil : joined [] = [] := rfl

@[simp] theorem joined_cons (piece : Piece) (pieces : List Piece) :
    joined (piece :: pieces) = piece.text ++ joined pieces := rfl

@[simp] theorem joined_append (pieces pieces' : List Piece) :
    joined (pieces ++ pieces') = joined pieces ++ joined pieces' := flatMap_append

theorem mem_foundTexts {pieces : List Piece} {text : JsString} :
    text ∈ foundTexts pieces ↔ ∃ before after, pieces = before ++ found text :: after := by
  induction pieces with
  | nil => simp [foundTexts]
  | cons piece pieces ih =>
    cases piece with
    | kept s =>
      rw [foundTexts, ih]
      constructor
      · rintro ⟨before, after, rfl⟩
        exact ⟨kept s :: before, after, rfl⟩
      · rintro ⟨before, after, heq⟩
        cases before with
        | nil => cases heq
        | cons piece before =>
          obtain ⟨-, heq⟩ := List.cons.inj heq
          exact ⟨before, after, heq⟩
    | found s =>
      rw [foundTexts, mem_cons, ih]
      constructor
      · rintro (rfl | ⟨before, after, rfl⟩)
        · exact ⟨[], pieces, rfl⟩
        · exact ⟨found s :: before, after, rfl⟩
      · rintro ⟨before, after, heq⟩
        cases before with
        | nil =>
          cases heq
          exact .inl rfl
        | cons piece before =>
          obtain ⟨-, heq⟩ := List.cons.inj heq
          exact .inr ⟨before, after, heq⟩

end Piece

/-- A search under the `g` flag. -/
structure Matcher where
  pieces : JsString → List Piece
  joined_pieces : ∀ text, Piece.joined (pieces text) = text

namespace Regex

/-- The pieces from a place on.  Each round takes a unit or more, so the length
of the text is enough fuel. -/
def piecesFrom (p : Pattern) : Nat → Option UInt16 → JsString → List Piece
  | 0, _, rest => [.kept rest]
  | fuel + 1, previous, rest =>
      match searchFrom p 0 previous rest with
      | none => [.kept rest]
      | some m =>
          if m.length = 0 then
            match rest.drop m.index with
            | [] => [.kept rest]
            | u :: after => .kept (rest.take (m.index + 1)) :: piecesFrom p fuel (some u) after
          else
            .kept (rest.take m.index) :: .found (m.text rest) ::
              piecesFrom p fuel (lastUnit previous (rest.take (m.index + m.length)))
                (rest.drop (m.index + m.length))

/-- What one round does: the rest is kept, or an empty match is stepped over, or
a match is found. -/
theorem piecesFrom_cases (p : Pattern) (fuel : Nat) (previous : Option UInt16) (rest : JsString) :
    piecesFrom p (fuel + 1) previous rest = [.kept rest] ∨
      (∃ skipped u after, rest = skipped ++ u :: after ∧ piecesFrom p (fuel + 1) previous rest =
          .kept (skipped ++ [u]) :: piecesFrom p fuel (some u) after) ∨
      ∃ skipped text later m, rest = skipped ++ (text ++ later) ∧ text ≠ [] ∧
        matchAt p skipped.length (lastUnit previous skipped) (text ++ later) = some m ∧
        m.length = text.length ∧
        piecesFrom p (fuel + 1) previous rest = .kept skipped :: .found text ::
            piecesFrom p fuel (lastUnit previous (skipped ++ text)) later := by
  rw [piecesFrom]
  cases hsearch : searchFrom p 0 previous rest with
  | none => exact .inl rfl
  | some m =>
    obtain ⟨skipped, from', rfl, hmatch⟩ := searchFrom_matchAt hsearch
    obtain ⟨text, later, rfl, hindex, hlength, -, -⟩ := matchAt_cases hmatch
    rw [Nat.zero_add] at hindex hmatch
    dsimp only
    by_cases hempty : m.length = 0
    · have htext : text = [] := length_eq_zero_iff.mp (hlength ▸ hempty)
      rw [if_pos hempty, hindex, drop_left, htext, nil_append]
      cases later with
      | nil => exact .inl rfl
      | cons u after =>
        refine .inr (.inl ⟨skipped, u, after, rfl, ?_⟩)
        rw [take_length_add_append]
        rfl
    · have htext : text ≠ [] := by
        rintro rfl
        exact hempty hlength
      refine .inr (.inr ⟨skipped, text, later, m, rfl, htext, hmatch, hlength, ?_⟩)
      have htake : (skipped ++ (text ++ later)).take (skipped.length + text.length) =
          skipped ++ text := by
        rw [← append_assoc, ← length_append, take_left]
      have hdrop : (skipped ++ (text ++ later)).drop (skipped.length + text.length) = later := by
        rw [← append_assoc, ← length_append, drop_left]
      rw [if_neg hempty, Match.text, hindex, hlength, htake, hdrop, take_left, drop_left, take_left]

theorem joined_piecesFrom (p : Pattern) (fuel : Nat) (previous : Option UInt16) (rest : JsString) :
    Piece.joined (piecesFrom p fuel previous rest) = rest := by
  induction fuel generalizing previous rest with
  | zero => simp [piecesFrom, Piece.text]
  | succ fuel ih =>
    obtain hkept | ⟨skipped, u, after, rfl, hstep⟩ |
      ⟨skipped, text, later, m, rfl, -, -, -, hfound⟩ := piecesFrom_cases p fuel previous rest
    · simp [hkept, Piece.text]
    · simp [hstep, ih, Piece.text]
    · simp [hfound, ih, Piece.text]

theorem kept_ne_found {rest text : JsString} {before after : List Piece} :
    [Piece.kept rest] ≠ before ++ .found text :: after := by
  cases before with
  | nil => simp
  | cons piece before => simp

theorem matchAt_of_pieces {p : Pattern} {fuel : Nat} {previous : Option UInt16} {rest : JsString}
    {before after : List Piece} {text : JsString}
    (h : piecesFrom p fuel previous rest = before ++ .found text :: after) :
    ∃ index m, matchAt p index (lastUnit previous (Piece.joined before))
        (text ++ Piece.joined after) = some m ∧ m.length = text.length ∧ text ≠ [] := by
  induction fuel generalizing previous rest before with
  | zero => exact absurd h kept_ne_found
  | succ fuel ih =>
    obtain hkept | ⟨skipped, u, later, -, hstep⟩ |
      ⟨skipped, found, later, m, -, hne, hmatch, hlength, hfound⟩ :=
        piecesFrom_cases p fuel previous rest
    · rw [hkept] at h
      exact absurd h kept_ne_found
    · rw [hstep] at h
      cases before with
      | nil => cases h
      | cons piece before =>
        obtain ⟨rfl, htail⟩ := List.cons.inj h
        rw [Piece.joined_cons, Piece.text, lastUnit_append, lastUnit_append]
        exact ih htail
    · rw [hfound] at h
      rcases before with _ | ⟨piece, _ | ⟨piece', before⟩⟩
      · cases h
      · -- the piece is the match of this round
        obtain ⟨rfl, htail⟩ := List.cons.inj h
        obtain ⟨heq, hafter⟩ := List.cons.inj htail
        cases heq
        rw [← hafter, joined_piecesFrom, Piece.joined_cons, Piece.text, Piece.joined_nil,
          append_nil]
        exact ⟨skipped.length, m, hmatch, hlength, hne⟩
      · obtain ⟨rfl, htail⟩ := List.cons.inj h
        obtain ⟨rfl, hafter⟩ := List.cons.inj htail
        rw [Piece.joined_cons, Piece.joined_cons, Piece.text, Piece.text, ← append_assoc,
          lastUnit_append]
        exact ih hafter

/-- The pieces of a text, under the `g` flag. -/
def pieces (p : Pattern) (text : JsString) : List Piece :=
  piecesFrom p (text.length + 1) none text

end Regex

def Matcher.ofPattern (p : Regex.Pattern) : Matcher where
  pieces := Regex.pieces p
  joined_pieces text := Regex.joined_piecesFrom p _ none text

end RedRouter
