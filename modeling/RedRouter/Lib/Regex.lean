import RedRouter.Lib.JsString

/-!
# Regular expressions

A backtracking matcher for the regular expressions of the source.  A pattern
is tried at a cursor with a continuation for what comes after it, in the
order in which ECMAScript tries the alternatives: the left one first, and a
greedy star before its exit.

`Derives p previous text rest` says that a pattern can consume `text` at a
place, where `previous` stands before it and `rest` after it.  It leaves out
the order in which the matcher tries the ways to do so, and it takes a back
reference and a lookahead for anything.

`run_derives` is what every proof about a match uses: the continuation has
seen a cursor after a text that the pattern can consume.
-/

namespace RedRouter.Regex

open List

/-- A pattern.  A star only ever stands over patterns that consume a unit. -/
inductive Pattern where
  | empty
  | unit (p : UInt16 → Bool)
  | seq (a b : Pattern)
  | alt (a b : Pattern)
  | star (greedy : Bool) (a : Pattern)
  | group (n : Nat) (a : Pattern)
  | backref (n : Nat)
  /-- `(?=a)`. -/
  | ahead (a : Pattern)
  /-- `(?!c)` for one unit. -/
  | notAhead (p : UInt16 → Bool)
  /-- `(?<!c)` for one unit. -/
  | notBehind (p : UInt16 → Bool)
  /-- `\b`. -/
  | wordBoundary
  | atStart
  | atEnd
  /-- `^` under the `m` flag. -/
  | lineStart
  /-- `$` under the `m` flag. -/
  | lineEnd

/-- `[A-Za-z0-9_]`. -/
def isWord (u : UInt16) : Bool :=
  (unit 'A' ≤ u && u ≤ unit 'Z') || (unit 'a' ≤ u && u ≤ unit 'z') ||
    (unit '0' ≤ u && u ≤ unit '9') || u == unit '_'

def isLineTerminator (u : UInt16) : Bool := u == 0x0A || u == 0x0D || u == 0x2028 || u == 0x2029

/-- A place in the text, with the groups that have matched so far. -/
structure Cursor where
  previous : Option UInt16
  rest : JsString
  groups : List (Nat × JsString) := []

/-- The cursor after `n` more units. -/
def Cursor.advance (c : Cursor) (n : Nat) : Cursor :=
  { c with
    previous := ((c.rest.take n).getLast?).or c.previous
    rest := c.rest.drop n }

def Cursor.textTo (c c' : Cursor) : JsString := c.rest.take (c.rest.length - c'.rest.length)

/-- The last text of a group; a group that has not matched is empty. -/
def Cursor.group (c : Cursor) (n : Nat) : JsString := ((c.groups.find? (·.1 = n)).map (·.2)).getD []

/-- The rounds of a star.  Every round consumes a unit, so the length of the rest
is enough fuel. -/
def runStar {α : Type} (step : Cursor → (Cursor → Option α) → Option α) (greedy : Bool) :
    Nat → Cursor → (Cursor → Option α) → Option α
  | 0, c, k => k c
  | fuel + 1, c, k =>
      let again := fun (_ : Unit) => step c fun c' => runStar step greedy fuel c' k
      if greedy then (again ()).orElse fun _ => k c else (k c).orElse fun _ => again ()

/-- Matches a pattern at a cursor and goes on with `k`. -/
def run {α : Type} : Pattern → Cursor → (Cursor → Option α) → Option α
  | .empty, c, k => k c
  | .unit p, c, k =>
      match c.rest with
      | u :: _ => if p u then k (c.advance 1) else none
      | [] => none
  | .seq a b, c, k => run a c fun c' => run b c' k
  | .alt a b, c, k => (run a c k).orElse fun _ => run b c k
  | .star greedy a, c, k => runStar (run a) greedy c.rest.length c k
  | .group n a, c, k =>
      run a c fun c' => k { c' with groups := (n, c.textTo c') :: c'.groups }
  | .backref n, c, k =>
      if (c.group n).isPrefixOf c.rest then k (c.advance (c.group n).length) else none
  | .ahead a, c, k =>
      match run a c fun c' => some c'.groups with
      | some groups => k { c with groups := groups }
      | none => none
  | .notAhead p, c, k => if (c.rest.head?.map p).getD false then none else k c
  | .notBehind p, c, k => if (c.previous.map p).getD false then none else k c
  | .wordBoundary, c, k =>
      if (c.previous.map isWord).getD false = (c.rest.head?.map isWord).getD false then none else k c
  | .atStart, c, k => if c.previous.isNone then k c else none
  | .atEnd, c, k => if c.rest.isEmpty then k c else none
  | .lineStart, c, k => if (c.previous.map isLineTerminator).getD true then k c else none
  | .lineEnd, c, k => if (c.rest.head?.map isLineTerminator).getD true then k c else none

/-! ## Shorthands -/

namespace Pattern

def lit : JsString → Pattern
  | [] => empty
  | u :: text => seq (unit (· == u)) (lit text)

def cat : List Pattern → Pattern
  | [] => empty
  | [a] => a
  | a :: as => seq a (cat as)

/-- `a*`. -/
def many (a : Pattern) : Pattern := star true a

/-- `a*?`. -/
def manyLazy (a : Pattern) : Pattern := star false a

/-- `a+`. -/
def many1 (a : Pattern) : Pattern := seq a (star true a)

/-- `a?`. -/
def opt (a : Pattern) : Pattern := alt a empty

/-- `a{0,n}`, or `a{0,n}?`. -/
def upTo (greedy : Bool) (a : Pattern) : Nat → Pattern
  | 0 => empty
  | n + 1 => if greedy then alt (seq a (upTo greedy a n)) empty else alt empty (seq a (upTo greedy a n))

/-- `a{n}`, followed by `b`. -/
def times (a : Pattern) (b : Pattern) : Nat → Pattern
  | 0 => b
  | n + 1 => seq a (times a b n)

/-- `a{n,}`. -/
def atLeast (n : Nat) (a : Pattern) : Pattern := times a (many a) n

/-- `\s`. -/
def space : Pattern := unit JsString.isSpace

/-- `[\s\S]`. -/
def any : Pattern := unit fun _ => true

/-- `.`. -/
def dot : Pattern := unit fun u => !isLineTerminator u

/-- `[c]`. -/
def oneOf (chars : JsString) : Pattern := unit fun u => chars.contains u

/-- `[^c]`. -/
def except (chars : JsString) : Pattern := unit fun u => !chars.contains u

end Pattern

/-- `[0-9]`. -/
def isDigit (u : UInt16) : Bool := unit '0' ≤ u && u ≤ unit '9'

/-- The lower-case form of an ASCII letter. -/
def asciiLower (u : UInt16) : UInt16 :=
  if unit 'A' ≤ u && u ≤ unit 'Z' then u + 32 else u

/-- A literal text under the `i` flag. -/
def litIgnoreCase : JsString → Pattern
  | [] => .empty
  | u :: text => .seq (.unit fun v => asciiLower v == asciiLower u) (litIgnoreCase text)

/-! ## Searching -/

/-- A found match. -/
structure Match where
  index : Nat
  length : Nat
  groups : List (Nat × JsString)

def Match.group (m : Match) (n : Nat) : JsString := ((m.groups.find? (·.1 = n)).map (·.2)).getD []

def Match.text (m : Match) (s : JsString) : JsString := (s.drop m.index).take m.length

variable (p : Pattern)

/-- A match at the beginning of `rest`. -/
def matchAt (index : Nat) (previous : Option UInt16) (rest : JsString) : Option Match :=
  run p ⟨previous, rest, []⟩ fun c => some ⟨index, rest.length - c.rest.length, c.groups⟩

/-- The first match from `rest` on. -/
def searchFrom (p : Pattern) (index : Nat) (previous : Option UInt16) : JsString → Option Match
  | [] => matchAt p index previous []
  | u :: rest =>
      (matchAt p index previous (u :: rest)).orElse fun _ =>
        searchFrom p (index + 1) (some u) rest

/-- `s.match(p)`. -/
def search (s : JsString) : Option Match := searchFrom p 0 none s

/-- `p.test(s)`. -/
def test (s : JsString) : Bool := (search p s).isSome

/-- The matches of `p.exec(s)` under the `g` flag.  Every match consumes a unit,
so the length of the text is enough fuel. -/
def searchAllAux (p : Pattern) : Nat → JsString → List (Match × JsString)
  | 0, _ => []
  | fuel + 1, s =>
      match search p s with
      | none => []
      | some m => (m, m.text s) :: searchAllAux p fuel (s.drop (m.index + max m.length 1))

def searchAll (s : JsString) : List (Match × JsString) := searchAllAux p s.length s

def removeAllAux (p : Pattern) : Nat → JsString → JsString
  | 0, s => s
  | fuel + 1, s =>
      match search p s with
      | none => s
      | some m => s.take m.index ++ removeAllAux p fuel (s.drop (m.index + m.length))

/-- `s.replace(p, "")` under the `g` flag. -/
def removeAll (s : JsString) : JsString := removeAllAux p s.length s

/-! ## What a pattern can consume -/

variable (previous : Option UInt16)

/-- The unit before a place, after some more text. -/
def lastUnit (text : JsString) : Option UInt16 :=
  text.getLast?.or previous

theorem lastUnit_append (s t : JsString) :
    lastUnit previous (s ++ t) = lastUnit (lastUnit previous s) t := by
  unfold lastUnit
  rw [getLast?_append, Option.or_assoc]

theorem lastUnit_ne_none {previous : Option UInt16} (h : previous ≠ none) (text : JsString) :
    lastUnit previous text ≠ none := by
  cases text with
  | nil => exact h
  | cons u text => simp [lastUnit]

/-- A pattern can consume `text` between `previous` and `rest`. -/
inductive Derives : Pattern → Option UInt16 → JsString → JsString → Prop
  | empty {previous : Option UInt16} {rest : JsString} : Derives .empty previous [] rest
  | unit {p : UInt16 → Bool} {u : UInt16} {previous : Option UInt16} {rest : JsString}
      (h : p u = true) : Derives (.unit p) previous [u] rest
  | seq {a b : Pattern} {previous : Option UInt16} {s t rest : JsString}
      (ha : Derives a previous s (t ++ rest)) (hb : Derives b (lastUnit previous s) t rest) :
      Derives (.seq a b) previous (s ++ t) rest
  | altLeft {a b : Pattern} {previous : Option UInt16} {s rest : JsString}
      (h : Derives a previous s rest) : Derives (.alt a b) previous s rest
  | altRight {a b : Pattern} {previous : Option UInt16} {s rest : JsString}
      (h : Derives b previous s rest) : Derives (.alt a b) previous s rest
  | starDone {greedy : Bool} {a : Pattern} {previous : Option UInt16} {rest : JsString} :
      Derives (.star greedy a) previous [] rest
  | starMore {greedy : Bool} {a : Pattern} {previous : Option UInt16} {s t rest : JsString}
      (ha : Derives a previous s (t ++ rest))
      (hb : Derives (.star greedy a) (lastUnit previous s) t rest) :
      Derives (.star greedy a) previous (s ++ t) rest
  | group {n : Nat} {a : Pattern} {previous : Option UInt16} {s rest : JsString}
      (h : Derives a previous s rest) : Derives (.group n a) previous s rest
  | backref {n : Nat} {previous : Option UInt16} {s rest : JsString} :
      Derives (.backref n) previous s rest
  | ahead {a : Pattern} {previous : Option UInt16} {rest : JsString} :
      Derives (.ahead a) previous [] rest
  | notAhead {p : UInt16 → Bool} {previous : Option UInt16} {rest : JsString} :
      Derives (.notAhead p) previous [] rest
  | notBehind {p : UInt16 → Bool} {previous : Option UInt16} {rest : JsString} :
      Derives (.notBehind p) previous [] rest
  | wordBoundary {previous : Option UInt16} {rest : JsString}
      (h : (previous.map isWord).getD false ≠ (rest.head?.map isWord).getD false) :
      Derives .wordBoundary previous [] rest
  | atStart {rest : JsString} : Derives .atStart none [] rest
  | atEnd {previous : Option UInt16} : Derives .atEnd previous [] []
  | lineStart {previous : Option UInt16} {rest : JsString} : Derives .lineStart previous [] rest
  | lineEnd {previous : Option UInt16} {rest : JsString}
      (h : (rest.head?.map isLineTerminator).getD true = true) : Derives .lineEnd previous [] rest

/-! ## What a match is -/

variable {α : Type}

/-- The matcher goes on at a cursor after a text that the pattern can consume. -/
def Reaches (p : Pattern) (c : Cursor) (k : Cursor → Option α) (x : α) : Prop :=
  ∃ text c', Derives p c.previous text c'.rest ∧ c.rest = text ++ c'.rest ∧
    c'.previous = lastUnit c.previous text ∧ k c' = some x

theorem Reaches.here {p : Pattern} {c : Cursor} {k : Cursor → Option α} {x : α}
    (h : Derives p c.previous [] c.rest) (hk : k c = some x) : Reaches p c k x :=
  ⟨[], c, h, rfl, rfl, hk⟩

theorem runStar_derives {a : Pattern} {step : Cursor → (Cursor → Option α) → Option α}
    (hstep : ∀ c k x, step c k = some x → Reaches a c k x) (greedy : Bool) (fuel : Nat)
    {c : Cursor} {k : Cursor → Option α} {x : α} (h : runStar step greedy fuel c k = some x) :
    Reaches (.star greedy a) c k x := by
  induction fuel generalizing c with
  | zero => exact .here .starDone h
  | succ fuel ih =>
    have hagain : step c (fun c' => runStar step greedy fuel c' k) = some x →
        Reaches (.star greedy a) c k x := by
      intro hsome
      obtain ⟨s, c₁, hs, hrest, hprevious, hgo⟩ := hstep _ _ _ hsome
      obtain ⟨t, c₂, ht, hrest', hprevious', hk⟩ := ih hgo
      refine ⟨s ++ t, c₂, .starMore ?_ ?_, ?_, ?_, hk⟩
      · rw [← hrest']
        exact hs
      · rw [← hprevious]
        exact ht
      · rw [hrest, hrest', append_assoc]
      · rw [hprevious', hprevious, lastUnit_append]
    unfold runStar at h
    split at h
    · cases hsome : step c fun c' => runStar step greedy fuel c' k with
      | some y =>
        rw [hsome] at h
        cases h
        exact hagain hsome
      | none =>
        rw [hsome] at h
        exact .here .starDone h
    · cases hk : k c with
      | some y =>
        rw [hk] at h
        cases h
        exact .here .starDone hk
      | none =>
        rw [hk] at h
        exact hagain h

theorem run_derives (p : Pattern) {c : Cursor} {k : Cursor → Option α} {x : α}
    (h : run p c k = some x) : Reaches p c k x := by
  induction p generalizing α c with
  | empty => exact .here .empty h
  | unit p =>
    unfold run at h
    split at h
    · rename_i u rest heq
      split at h
      · rename_i hu
        refine ⟨[u], c.advance 1, .unit hu, ?_, ?_, h⟩
        · simp [Cursor.advance, heq]
        · simp [Cursor.advance, heq, lastUnit]
      · cases h
    · cases h
  | seq a b iha ihb =>
    obtain ⟨s, c₁, hs, hrest, hprevious, hb⟩ := iha h
    obtain ⟨t, c₂, ht, hrest', hprevious', hk⟩ := ihb hb
    refine ⟨s ++ t, c₂, .seq ?_ ?_, ?_, ?_, hk⟩
    · rw [← hrest']
      exact hs
    · rw [← hprevious]
      exact ht
    · rw [hrest, hrest', append_assoc]
    · rw [hprevious', hprevious, lastUnit_append]
  | alt a b iha ihb =>
    unfold run at h
    cases ha : run a c k with
    | some y =>
      rw [ha] at h
      cases h
      obtain ⟨s, c', hs, hrest⟩ := iha ha
      exact ⟨s, c', .altLeft hs, hrest⟩
    | none =>
      rw [ha] at h
      obtain ⟨s, c', hs, hrest⟩ := ihb h
      exact ⟨s, c', .altRight hs, hrest⟩
  | star greedy a ih => exact runStar_derives (fun c k x hsome => ih hsome) greedy _ h
  | group n a ih =>
    obtain ⟨s, c₁, hs, hrest, hprevious, hk⟩ := ih h
    exact ⟨s, { c₁ with groups := (n, c.textTo c₁) :: c₁.groups }, .group hs, hrest, hprevious, hk⟩
  | backref n =>
    unfold run at h
    split at h
    · rename_i hpre
      obtain ⟨rest, hrest⟩ := isPrefixOf_iff_prefix.mp hpre
      refine ⟨c.group n, _, .backref, ?_, ?_, h⟩
      · simp [Cursor.advance, ← hrest]
      · simp [Cursor.advance, ← hrest, lastUnit]
    · cases h
  | ahead a ih =>
    unfold run at h
    split at h
    · rename_i groups _
      exact ⟨[], { c with groups := groups }, .ahead, rfl, rfl, h⟩
    · cases h
  | notAhead p =>
    unfold run at h
    split at h
    · cases h
    · exact .here .notAhead h
  | notBehind p =>
    unfold run at h
    split at h
    · cases h
    · exact .here .notBehind h
  | wordBoundary =>
    unfold run at h
    split at h
    · cases h
    · rename_i hboundary
      exact .here (.wordBoundary hboundary) h
  | atStart =>
    unfold run at h
    split at h
    · rename_i hstart
      have hnone := Option.isNone_iff_eq_none.mp hstart
      exact .here (by rw [hnone]; exact .atStart) h
    · cases h
  | atEnd =>
    unfold run at h
    split at h
    · rename_i hend
      have hnil := List.isEmpty_iff.mp hend
      exact .here (by rw [hnil]; exact .atEnd) h
    · cases h
  | lineStart =>
    unfold run at h
    split at h
    · exact .here .lineStart h
    · cases h
  | lineEnd =>
    unfold run at h
    split at h
    · rename_i hend
      exact .here (.lineEnd hend) h
    · cases h

theorem run_cases (p : Pattern) {c : Cursor} {k : Cursor → Option α} {x : α}
    (h : run p c k = some x) : ∃ c', c'.rest <:+ c.rest ∧ k c' = some x := by
  obtain ⟨text, c', -, hrest, -, hk⟩ := run_derives p h
  exact ⟨c', ⟨text, hrest.symm⟩, hk⟩

theorem run_lit (text : JsString) {c : Cursor} {k : Cursor → Option α} {x : α}
    (h : run (Pattern.lit text) c k = some x) : text <+: c.rest := by
  induction text generalizing c with
  | nil => exact nil_prefix
  | cons u text ih =>
    unfold Pattern.lit run at h
    unfold run at h
    split at h
    · rename_i v rest heq
      split at h
      · rename_i hv
        have hsame : v = u := by simpa using hv
        have htail := ih h
        rw [heq, hsame]
        unfold Cursor.advance at htail
        rw [heq] at htail
        exact cons_prefix_cons.mpr ⟨rfl, htail⟩
      · cases h
    · cases h

theorem searchFrom_matchAt {p : Pattern} {index : Nat} {previous : Option UInt16} {s : JsString}
    {m : Match} (h : searchFrom p index previous s = some m) :
    ∃ before rest, s = before ++ rest ∧
      matchAt p (index + before.length) (lastUnit previous before) rest = some m := by
  induction s generalizing index previous with
  | nil => exact ⟨[], [], rfl, h⟩
  | cons u s ih =>
    unfold searchFrom at h
    cases hat : matchAt p index previous (u :: s) with
    | some m' =>
      rw [hat] at h
      cases h
      exact ⟨[], u :: s, rfl, hat⟩
    | none =>
      rw [hat] at h
      obtain ⟨before, rest, rfl, hm⟩ := ih h
      refine ⟨u :: before, rest, rfl, ?_⟩
      have hlast : lastUnit previous (u :: before) = lastUnit (some u) before := by
        rw [← singleton_append, lastUnit_append]
        rfl
      have hlength : index + (u :: before).length = index + 1 + before.length := by
        rw [length_cons]
        omega
      rw [hlast, hlength]
      exact hm

theorem search_cases {p : Pattern} {s : JsString} {m : Match} (h : search p s = some m) :
    ∃ before rest previous, s = before ++ rest ∧
      matchAt p before.length previous rest = some m := by
  obtain ⟨before, rest, hs, hm⟩ := searchFrom_matchAt h
  rw [Nat.zero_add] at hm
  exact ⟨before, rest, _, hs, hm⟩

end RedRouter.Regex
