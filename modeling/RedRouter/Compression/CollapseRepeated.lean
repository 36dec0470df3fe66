import RedRouter.Lib.Decimal
import RedRouter.Lib.Excerpts
import Mathlib.Data.List.TakeWhile
import RedRouter.Lib.JsValue
import RedRouter.Lib.Regex

/-!
# Collapsing repeated lines

`collapseRepeated` looks for runs of similar lines in the text of an accessibility tree: list
items of one indent and role, with the deeper and the blank lines between them.  Of a run that
is long enough it keeps a head and a tail.  A marker stands for the lines between, with the
anchors of these lines.

Every anchor of the text is in the output (`refs_kept`).  The positions of the kept lines are
increasing when head and tail are apart (`collapseRepeated_iff`).  They need not be: the head
counts list items behind the end of the run, the tail counts them from the first line of the
text on, and both count items, while the length of a run counts lines.
-/

namespace RedRouter.Compression.Accessibility

open List

/-! ## References of an accessibility tree

`extractRefs` collects the anchors `[ref=e12]` of a text.  Two anchors never overlap, so the scan
finds every one that is a part of the text (`mem_extractRefs`).  An anchor has no line break, so
the anchors of a text are those of its lines (`infix_join`).
-/

open Regex (isDigit)

/-- The anchor at the beginning of a text. -/
def refHere (s : JsString) : Option JsString :=
  if s.startsWith (js "[ref=e") then
    let digits := (s.drop 6).takeWhile isDigit
    if digits ≠ [] ∧ (s.drop (6 + digits.length)).head? = some (unit ']') then
      some (js "[ref=e" ++ (digits ++ js "]"))
    else none
  else none

/-- `text.matchAll(/\[ref=e\d+\]/g)`, where the first `skip` units belong to a match. -/
def matchesFrom : Nat → JsString → List JsString
  | _, [] => []
  | skip + 1, _ :: rest => matchesFrom skip rest
  | 0, c :: rest =>
      match refHere (c :: rest) with
      | some ref => ref :: matchesFrom (ref.length - 1) rest
      | none => matchesFrom 0 rest

/-- The different anchors, in the order of the text. -/
def extractRefs (text : JsString) : List JsString :=
  (matchesFrom 0 text).foldl (fun refs ref => if ref ∈ refs then refs else refs ++ [ref]) []

def IsRef (ref : JsString) : Prop :=
  ∃ digits : JsString, digits ≠ [] ∧ (∀ c ∈ digits, isDigit c = true) ∧
    ref = js "[ref=e" ++ (digits ++ js "]")

variable {s ref text : JsString}

theorem refHere_iff : refHere s = some ref ↔ IsRef ref ∧ ref <+: s := by
  have hbracket : isDigit (unit ']') = false := by decide
  constructor
  · intro h
    unfold refHere at h
    split at h
    · rename_i hstart
      obtain ⟨tail, rfl⟩ := isPrefixOf_iff_prefix.mp hstart
      have hdrop : (js "[ref=e" ++ tail).drop 6 = tail := rfl
      have hdrop' : ∀ n, (js "[ref=e" ++ tail).drop (6 + n) = tail.drop n := by
        intro n
        rw [← drop_drop, hdrop]
      dsimp only at h
      rw [hdrop, hdrop'] at h
      split at h
      · rename_i hfound
        cases Option.some.inj h
        refine ⟨⟨_, hfound.1, fun c hc => mem_takeWhile_imp hc, rfl⟩, ?_⟩
        refine (prefix_append_right_inj _).mpr ?_
        obtain ⟨rest, hrest⟩ := head?_eq_some_iff.mp hfound.2
        refine ⟨rest, ?_⟩
        rw [append_assoc]
        show tail.takeWhile isDigit ++ (unit ']' :: rest) = tail
        rw [← hrest]
        conv_rhs => rw [← take_append_drop (tail.takeWhile isDigit).length tail]
        congr 1
        exact prefix_iff_eq_take.mp ( takeWhile_prefix isDigit)
      · cases h
    · cases h
  · rintro ⟨⟨digits, hne, hdigits, rfl⟩, rest, rfl⟩
    have hwhile : (digits ++ (js "]" ++ rest)).takeWhile isDigit = digits := by
      rw [takeWhile_append_of_pos hdigits]
      show digits ++ (unit ']' :: rest).takeWhile isDigit = digits
      rw [takeWhile_cons_of_neg (by rw [hbracket]; exact Bool.false_ne_true), append_nil]
    have hdrop : (js "[ref=e" ++ (digits ++ js "]") ++ rest).drop 6 = digits ++ (js "]" ++ rest) := by
      rw [append_assoc, append_assoc]
      rfl
    unfold refHere
    rw [if_pos]
    · dsimp only
      rw [← drop_drop, hdrop, hwhile, drop_left, if_pos ⟨hne, rfl⟩]
    · exact isPrefixOf_iff_prefix.mpr (prefix_append _ _)

theorem matchesFrom_eq (skip : Nat) (s : JsString) :
    matchesFrom skip s = matchesFrom 0 (s.drop skip) := by
  induction s generalizing skip with
  | nil => cases skip <;> simp [matchesFrom]
  | cons c rest ih =>
    cases skip with
    | zero => rfl
    | succ skip => exact ih skip

/-- Behind its first unit, an anchor has no bracket that opens another one. -/
theorem IsRef.not_mem_tail (h : IsRef ref) : unit '[' ∉ ref.drop 1 := by
  obtain ⟨digits, -, hdigits, rfl⟩ := h
  intro hmem
  rcases mem_append.mp hmem with hword | hmem
  · exact absurd hword (by decide)
  · rcases mem_append.mp hmem with hdigit | hend
    · exact absurd (hdigits _ hdigit) (by decide)
    · exact absurd hend (by decide)

theorem IsRef.cons (h : IsRef ref) : ∃ tail, ref = unit '[' :: tail := by
  obtain ⟨digits, -, -, rfl⟩ := h
  exact ⟨_, rfl⟩

theorem IsRef.ne_nil (h : IsRef ref) : ref ≠ [] := by
  obtain ⟨tail, rfl⟩ := h.cons
  exact cons_ne_nil _ _

theorem mem_matches : ref ∈ matchesFrom 0 text ↔ IsRef ref ∧ ref <:+: text := by
  induction hn : text.length using Nat.strong_induction_on generalizing text with
  | h n ih =>
    cases text with
    | nil =>
      refine iff_of_false (fun h => absurd h not_mem_nil) ?_
      rintro ⟨href, hinfix⟩
      exact href.ne_nil (infix_nil.mp hinfix)
    | cons c rest =>
      have hshort : rest.length < n := by
        rw [← hn, length_cons]
        exact Nat.lt_succ_self _
      rw [infix_cons_iff]
      cases hhere : refHere (c :: rest) with
      | none =>
        have hstep : matchesFrom 0 (c :: rest) = matchesFrom 0 rest := by
          rw [matchesFrom, hhere]
        rw [hstep, ih rest.length hshort rfl]
        refine and_congr_right fun href => ⟨Or.inr, fun h => h.resolve_left fun hlead => ?_⟩
        rw [refHere_iff.mpr ⟨href, hlead⟩] at hhere
        cases hhere
      | some found =>
        obtain ⟨hfound, hlead⟩ := refHere_iff.mp hhere
        have hstep : matchesFrom 0 (c :: rest) =
            found :: matchesFrom 0 (rest.drop (found.length - 1)) := by
          rw [matchesFrom, hhere]
          exact congrArg (found :: ·) (matchesFrom_eq _ _)
        have hdropped : (rest.drop (found.length - 1)).length < n :=
          Nat.lt_of_le_of_lt (by rw [length_drop]; omega) hshort
        rw [hstep, mem_cons, ih _ hdropped rfl]
        constructor
        · rintro (rfl | ⟨href, hlater⟩)
          · exact ⟨hfound, Or.inl hlead⟩
          · exact ⟨href, Or.inr (hlater.trans (drop_suffix _ _).isInfix)⟩
        · rintro ⟨href, hlead' | hlater⟩
          · have hsame := refHere_iff.mpr ⟨href, hlead'⟩
            rw [hhere] at hsame
            exact Or.inl (Option.some.inj hsame).symm
          · -- the anchor begins with a bracket, and the found one has none behind its first unit
            refine Or.inr ⟨href, ?_⟩
            obtain ⟨before, after, heq⟩ := hlater
            obtain ⟨tail, rfl⟩ := href.cons
            obtain ⟨tail', rfl⟩ := hfound.cons
            have hnot := hfound.not_mem_tail
            have hrest : tail' <+: rest := (cons_prefix_cons.mp hlead).2
            rw [length_cons, Nat.add_sub_cancel]
            have hlong : tail'.length ≤ before.length := by
              by_contra hshorter
              have hlater : before ++ [unit '['] <+: rest := by
                rw [← heq]
                exact ⟨tail ++ after, by simp⟩
              have hinside : before ++ [unit '['] <+: tail' := by
                refine prefix_of_prefix_length_le hlater hrest ?_
                rw [length_append, length_singleton]
                omega
              exact hnot (hinside.subset (mem_append_right _ mem_cons_self))
            rw [← heq, append_assoc, drop_append_of_le_length hlong]
            exact ⟨before.drop tail'.length, after, append_assoc _ _ _⟩

theorem mem_extractRefs : ref ∈ extractRefs text ↔ IsRef ref ∧ ref <:+: text := by
  have hfold : ∀ refs found : List JsString,
      ref ∈ found.foldl (fun refs ref => if ref ∈ refs then refs else refs ++ [ref]) refs ↔
        ref ∈ refs ∨ ref ∈ found := by
    intro refs found
    induction found generalizing refs with
    | nil => simp
    | cons first found ih =>
      rw [foldl_cons, ih]
      split
      · rename_i hold
        rw [mem_cons]
        constructor
        · rintro (h | h)
          · exact Or.inl h
          · exact Or.inr (Or.inr h)
        · rintro (h | rfl | h)
          · exact Or.inl h
          · exact Or.inl hold
          · exact Or.inr h
      · rw [mem_append, mem_singleton, mem_cons, or_assoc]
  rw [← mem_matches, extractRefs, hfold]
  exact or_iff_right not_mem_nil

/-! ## Lines -/

theorem prefix_of_prefix_append_cons {c : UInt16} {a b : JsString} (hc : c ∉ s)
    (h : s <+: a ++ c :: b) : s <+: a := by
  have ha : a ++ [c] <+: a ++ c :: b := ⟨b, by simp⟩
  by_cases hlength : s.length ≤ a.length
  · exact prefix_of_prefix_length_le h (prefix_append a _) hlength
  · have hover : a ++ [c] <+: s := by
      refine prefix_of_prefix_length_le ha h ?_
      rw [length_append, length_singleton]
      omega
    exact absurd (hover.subset (mem_append_right _ mem_cons_self)) hc

theorem infix_append_cons {c : UInt16} {a b : JsString} (hc : c ∉ s) (hne : s ≠ []) :
    s <:+: a ++ c :: b ↔ s <:+: a ∨ s <:+: b := by
  constructor
  · intro h
    induction a with
    | nil =>
      rcases infix_cons_iff.mp h with hlead | hlater
      · exact absurd (prefix_nil.mp (prefix_of_prefix_append_cons hc (a := []) hlead)) hne
      · exact Or.inr hlater
    | cons u a ih =>
      rcases infix_cons_iff.mp h with hlead | hlater
      · exact Or.inl (prefix_of_prefix_append_cons hc (a := u :: a) hlead).isInfix
      · rcases ih hlater with hfirst | hrest
        · exact Or.inl (hfirst.trans (suffix_cons u a).isInfix)
        · exact Or.inr hrest
  · rintro (h | h)
    · exact h.trans (prefix_append a _).isInfix
    · exact h.trans ⟨a ++ [c], [], by simp⟩

/-- A text without the separator is a part of a join if and only if it is one of a part of it. -/
theorem infix_join {c : UInt16} (hc : c ∉ s) (hne : s ≠ []) (parts : List JsString) :
    s <:+: JsString.join [c] parts ↔ ∃ part ∈ parts, s <:+: part := by
  induction parts with
  | nil =>
    refine iff_of_false (fun h => hne (infix_nil.mp h)) ?_
    rintro ⟨part, hpart, -⟩
    exact absurd hpart not_mem_nil
  | cons first parts ih =>
    cases parts with
    | nil =>
      rw [JsString.join_cons, flatMap_nil, append_nil]
      simp
    | cons second parts =>
      have hjoin : JsString.join [c] (first :: second :: parts) =
          first ++ c :: JsString.join [c] (second :: parts) := by
        rw [JsString.join_cons, JsString.join_cons]
        simp
      rw [hjoin, infix_append_cons hc hne, ih]
      simp

theorem IsRef.not_mem {c : UInt16} (h : IsRef ref) (hc : isDigit c = false)
    (hword : c ∉ js "[ref=e]") : c ∉ ref := by
  obtain ⟨digits, -, hdigits, rfl⟩ := h
  intro hmem
  rcases mem_append.mp hmem with hfirst | hmem
  · exact hword (mem_append_left (js "]") hfirst)
  · rcases mem_append.mp hmem with hdigit | hend
    · rw [hdigits c hdigit] at hc
      cases hc
    · exact hword (mem_append_right (js "[ref=e") hend)

open JsString (isSpace join ofInt ofNat startsWith trim)

structure CollapseOptions where
  threshold : Int
  keepHead : Int
  keepTail : Int

def newline : UInt16 := 0x0A

def linesOf (text : JsString) : List JsString := text.splitOn newline

def isLetter (u : UInt16) : Bool :=
  (unit 'A' ≤ u && u ≤ unit 'Z') || (unit 'a' ≤ u && u ≤ unit 'z')

/-- `/^(\s*)-\s*([a-zA-Z]+)\b/`: the indent and the role of a list item. -/
def siblingOf (line : JsString) : Option (JsString × JsString) :=
  let indent := line.takeWhile isSpace
  match line.drop indent.length with
  | [] => none
  | dash :: rest =>
      let rest := rest.dropWhile isSpace
      let role := rest.takeWhile isLetter
      -- behind the letters, a digit or an underscore is no word boundary
      if dash = unit '-' ∧ role ≠ [] ∧
          ((rest.drop role.length).head?.map Regex.isWord).getD false = false then
        some (indent, role)
      else none

def isSibling (indent role line : JsString) : Bool := siblingOf line == some (indent, role)

def inRun (indent role line : JsString) : Bool :=
  isSibling indent role line || startsWith line (indent ++ js " ") ||
    startsWith line (indent ++ js "\t") || trim line == []

/-- The loop of `findNthSiblingEnd`. -/
def nthSiblingEndFrom (indent role : JsString) (n : Int) : List JsString → Nat → Nat → Nat
  | [], k, _ => k
  | line :: rest, k, count =>
      if isSibling indent role line then
        if n < (count + 1 : Nat) then k else nthSiblingEndFrom indent role n rest (k + 1) (count + 1)
      else nthSiblingEndFrom indent role n rest (k + 1) count

def findNthSiblingEnd (lines : List JsString) (start : Nat) (indent role : JsString) (n : Int) :
    Nat :=
  nthSiblingEndFrom indent role n (lines.drop start) start 0

/-- `none` is `undefined`, which the last of no items gives. -/
def findLastNSiblingStart (lines : List JsString) (stop : Nat) (indent role : JsString) (n : Int) :
    Option Nat :=
  let positions := (List.range stop).filter fun k =>
    (lines[k]?.map (isSibling indent role)).getD false
  if n ≤ positions.length then positions[(positions.length - n).toNat]? else some stop

/-- A line of the output: one of the text, by its position, or a marker. -/
inductive OutLine where
  | kept (k : Nat)
  | marker (text : JsString)
deriving DecidableEq

def OutLine.render (lines : List JsString) : OutLine → JsString
  | kept k => lines[k]?.getD []
  | marker text => text

/-- `for (let k = i; k < j; k++) out.push(lines[k])`. -/
def keepLines (i j : Nat) : List OutLine := (List.range' i (j - i)).map .kept

/-- `lines.slice(start, stop)`. -/
def slice (lines : List JsString) (start : Nat) : Option Nat → List JsString
  | none => lines.drop start
  | some stop => (lines.take stop).drop start

def omittedNotice (indent role : JsString) (count : Int) : JsString :=
  indent ++ js "... [" ++ ofInt count ++ js " similar \"" ++ role ++
    js "\" items omitted by RedRouter MCP filter]"

def refsNotice (indent role : JsString) (refs : List JsString) : JsString :=
  indent ++ js "  [refs of omitted \"" ++ role ++ js "\" items (clickable): " ++
    join [unit ' '] refs ++ js "]"

variable (lines : List JsString) (options : CollapseOptions)

def headEndOf (i : Nat) (indent role : JsString) : Nat :=
  findNthSiblingEnd lines i indent role options.keepHead

def tailStartOf (j : Nat) (indent role : JsString) : Option Nat :=
  findLastNSiblingStart (lines.take j) j indent role options.keepTail

def collapseRun (i j : Nat) (indent role : JsString) : List OutLine :=
  let headEnd := headEndOf lines options i indent role
  let tailStart := tailStartOf lines options j indent role
  let omittedRefs := extractRefs (join [newline] (slice lines headEnd tailStart))
  keepLines i headEnd ++
    (.marker (omittedNotice indent role ((j - i : Nat) - options.keepHead - options.keepTail)) ::
      ((if omittedRefs.length > 0 then [.marker (refsNotice indent role omittedRefs)] else []) ++
        match tailStart with
        | none => []
        | some tailStart => keepLines tailStart j))

def runEnd (i : Nat) (indent role : JsString) : Nat :=
  i + ((lines.drop i).takeWhile (inRun indent role)).length

/-- The loop over the text.  Every round goes on by a line or more. -/
def collapseFrom : Nat → Nat → List OutLine
  | 0, _ => []
  | fuel + 1, i =>
      match lines[i]? with
      | none => []
      | some line =>
          match siblingOf line with
          | none => .kept i :: collapseFrom fuel (i + 1)
          | some (indent, role) =>
              let j := runEnd lines i indent role
              (if options.threshold ≤ (j - i : Nat) then collapseRun lines options i j indent role
                else keepLines i j) ++ collapseFrom fuel j

def collapseLines (text : JsString) : List OutLine :=
  collapseFrom (linesOf text) options (linesOf text).length 0

def collapseRepeated (text : JsString) : JsString :=
  join [newline] ((collapseLines options text).map (OutLine.render (linesOf text)))

/-! ## Head and tail -/

variable {lines options}

theorem nthSiblingEndFrom_bounds (indent role : JsString) (n : Int) (rest : List JsString)
    (k count : Nat) : k ≤ nthSiblingEndFrom indent role n rest k count ∧
      nthSiblingEndFrom indent role n rest k count ≤ k + rest.length := by
  induction rest generalizing k count with
  | nil => exact ⟨Nat.le_refl k, Nat.le_refl k⟩
  | cons line rest ih =>
    have hlength : k + (line :: rest).length = k + 1 + rest.length := by
      rw [length_cons]
      omega
    rw [nthSiblingEndFrom, hlength]
    split
    · split
      · omega
      · obtain ⟨hle, hle'⟩ := ih (k + 1) (count + 1)
        omega
    · obtain ⟨hle, hle'⟩ := ih (k + 1) count
      omega

theorem headEndOf_bounds {i : Nat} (hi : i ≤ lines.length) (indent role : JsString) :
    i ≤ headEndOf lines options i indent role ∧
      headEndOf lines options i indent role ≤ lines.length := by
  obtain ⟨hle, hle'⟩ := nthSiblingEndFrom_bounds indent role options.keepHead (lines.drop i) i 0
  rw [length_drop] at hle'
  exact ⟨hle, by unfold headEndOf findNthSiblingEnd; omega⟩

theorem headEndOf_start {i : Nat} {line indent role : JsString} (hline : lines[i]? = some line)
    (hsibling : siblingOf line = some (indent, role)) :
    (options.keepHead ≤ 0 → headEndOf lines options i indent role = i) ∧
      (0 < options.keepHead → i < headEndOf lines options i indent role) := by
  obtain ⟨hi, hget⟩ := List.getElem?_eq_some_iff.mp hline
  have hfirst : isSibling indent role line = true := by
    rw [isSibling, hsibling]
    exact beq_self_eq_true _
  have hdrop : lines.drop i = line :: lines.drop (i + 1) := by
    rw [drop_eq_getElem_cons hi, hget]
  unfold headEndOf findNthSiblingEnd
  rw [hdrop, nthSiblingEndFrom, if_pos hfirst]
  constructor
  · intro hnone
    rw [if_pos (by omega)]
  · intro hsome
    split
    · omega
    · exact (nthSiblingEndFrom_bounds indent role options.keepHead _ (i + 1) 1).1

theorem tailStartOf_le (j : Nat) (indent role : JsString) :
    (tailStartOf lines options j indent role).getD j ≤ j := by
  unfold tailStartOf findLastNSiblingStart
  dsimp only
  split
  · cases hget : ((List.range j).filter fun k =>
        ((lines.take j)[k]?.map (isSibling indent role)).getD false)[(_ - options.keepTail).toNat]? with
    | none => exact Nat.le_refl j
    | some k =>
      have hmem := mem_of_getElem? hget
      exact Nat.le_of_lt (List.mem_range.mp (mem_filter.mp hmem).1)
  · exact Nat.le_refl j

theorem runEnd_bounds {i : Nat} {line indent role : JsString} (hline : lines[i]? = some line)
    (hsibling : siblingOf line = some (indent, role)) :
    i < runEnd lines i indent role ∧ runEnd lines i indent role ≤ lines.length := by
  obtain ⟨hi, hget⟩ := List.getElem?_eq_some_iff.mp hline
  have hfirst : inRun indent role line = true := by
    have hsame : isSibling indent role line = true := by
      rw [isSibling, hsibling]
      exact beq_self_eq_true _
    unfold inRun
    rw [hsame]
    rfl
  have hdrop : lines.drop i = line :: lines.drop (i + 1) := by
    rw [drop_eq_getElem_cons hi, hget]
  have hlength := ( takeWhile_prefix (inRun indent role) (l := lines.drop i)).length_le
  unfold runEnd
  constructor
  · rw [hdrop, takeWhile_cons_of_pos hfirst, length_cons]
    omega
  · rw [length_drop] at hlength
    omega

/-! ## Positions -/

def keptOf (out : List OutLine) : List Nat :=
  out.filterMap fun line => match line with
    | .kept k => some k
    | .marker _ => none

/-- The blocks that the loop goes through, with the head and the tail of each. -/
def excerptsFrom (lines : List JsString) (options : CollapseOptions) : Nat → Nat → List Excerpt
  | 0, _ => []
  | fuel + 1, i =>
      match lines[i]? with
      | none => []
      | some line =>
          match siblingOf line with
          | none => ⟨i, i + 1, i + 1, i + 1⟩ :: excerptsFrom lines options fuel (i + 1)
          | some (indent, role) =>
              let j := runEnd lines i indent role
              (if options.threshold ≤ (j - i : Nat) then
                ⟨i, j, headEndOf lines options i indent role,
                  (tailStartOf lines options j indent role).getD j⟩
              else ⟨i, j, j, j⟩) :: excerptsFrom lines options fuel j

def excerpts (options : CollapseOptions) (text : JsString) : List Excerpt :=
  excerptsFrom (linesOf text) options (linesOf text).length 0

theorem keptOf_append (out out' : List OutLine) : keptOf (out ++ out') = keptOf out ++ keptOf out' :=
  filterMap_append

theorem keptOf_keepLines (i j : Nat) : keptOf (keepLines i j) = List.range' i (j - i) := by
  unfold keptOf keepLines
  rw [filterMap_map]
  exact filterMap_some

theorem keptOf_collapseRun (i j : Nat) (indent role : JsString) :
    keptOf (collapseRun lines options i j indent role) =
      Excerpt.kept ⟨i, j, headEndOf lines options i indent role,
        (tailStartOf lines options j indent role).getD j⟩ := by
  have hnotice : ∀ refs : List JsString, keptOf
      (if refs.length > 0 then [OutLine.marker (refsNotice indent role refs)] else []) = [] := by
    intro refs
    split <;> rfl
  have hmarker : ∀ (text : JsString) (out : List OutLine),
      keptOf (.marker text :: out) = keptOf out := fun _ _ => rfl
  unfold collapseRun Excerpt.kept
  rw [keptOf_append, keptOf_keepLines, hmarker, keptOf_append, hnotice, nil_append]
  congr 1
  cases tailStartOf lines options j indent role with
  | none =>
    rw [Option.getD_none, Nat.sub_self]
    rfl
  | some tailStart => exact keptOf_keepLines tailStart j

theorem keptOf_collapseFrom (fuel i : Nat) : keptOf (collapseFrom lines options fuel i) =
      (excerptsFrom lines options fuel i).flatMap Excerpt.kept := by
  have hwhole : ∀ i j, Excerpt.kept ⟨i, j, j, j⟩ = List.range' i (j - i) := by
    intro i j
    unfold Excerpt.kept
    rw [Nat.sub_self, range'_zero, append_nil]
  induction fuel generalizing i with
  | zero => rfl
  | succ fuel ih =>
    unfold collapseFrom excerptsFrom
    split
    · rfl
    · split
      · rw [flatMap_cons, hwhole, ← ih]
        have hone : i + 1 - i = 1 := by omega
        rw [hone]
        rfl
      · rw [flatMap_cons, keptOf_append, ih]
        congr 1
        split
        · exact keptOf_collapseRun i _ _ _
        · rw [hwhole, keptOf_keepLines]

theorem consecutive_excerptsFrom (fuel i : Nat) (hi : i ≤ lines.length)
    (hfuel : lines.length ≤ i + fuel) :
    Excerpt.Consecutive i (excerptsFrom lines options fuel i) lines.length := by
  induction fuel generalizing i with
  | zero =>
    show i = lines.length
    omega
  | succ fuel ih =>
    unfold excerptsFrom
    split
    · rename_i hnone
      have hend := List.getElem?_eq_none_iff.mp hnone
      show i = lines.length
      omega
    · rename_i line hline
      have hlt := (List.getElem?_eq_some_iff.mp hline).1
      split
      · exact ⟨rfl, Nat.lt_succ_self i, ih (i + 1) hlt (by omega)⟩
      · rename_i indent role hsibling
        obtain ⟨hstart, hstop⟩ := runEnd_bounds hline hsibling
        have hrest := ih (runEnd lines i indent role) hstop (by omega)
        dsimp only
        split <;> exact ⟨rfl, hstart, hrest⟩

/-- Where items of the head are kept, every block holds a line of its head. -/
theorem heads_of_pos (hpos : 0 < options.keepHead) (fuel i : Nat) :
    ∀ b ∈ excerptsFrom lines options fuel i,
      b.start < b.headEnd ∧ b.headEnd ≤ lines.length ∧ b.tailStart ≤ b.stop := by
  induction fuel generalizing i with
  | zero => exact fun b hb => absurd hb not_mem_nil
  | succ fuel ih =>
    unfold excerptsFrom
    split
    · exact fun b hb => absurd hb not_mem_nil
    · rename_i line hline
      have hlt := (List.getElem?_eq_some_iff.mp hline).1
      split
      · intro b hb
        rcases mem_cons.mp hb with rfl | hb
        · exact ⟨Nat.lt_succ_self i, hlt, Nat.le_refl _⟩
        · exact ih (i + 1) b hb
      · rename_i indent role hsibling
        obtain ⟨hstart, hstop⟩ := runEnd_bounds hline hsibling
        intro b hb
        rcases mem_cons.mp hb with rfl | hb
        · split
          · exact ⟨(headEndOf_start hline hsibling).2 hpos,
              (headEndOf_bounds (Nat.le_of_lt hlt) indent role).2, tailStartOf_le _ indent role⟩
          · exact ⟨hstart, hstop, Nat.le_refl _⟩
        · exact ih _ b hb

theorem heads_of_nonpos (hnone : options.keepHead ≤ 0) (fuel i : Nat) :
    ∀ b ∈ excerptsFrom lines options fuel i, b.tailStart ≤ b.stop ∧
      (b.headEnd = b.start ∨ b.headEnd = b.stop ∧ b.tailStart = b.stop) := by
  induction fuel generalizing i with
  | zero => exact fun b hb => absurd hb not_mem_nil
  | succ fuel ih =>
    unfold excerptsFrom
    split
    · exact fun b hb => absurd hb not_mem_nil
    · rename_i line hline
      split
      · intro b hb
        rcases mem_cons.mp hb with rfl | hb
        · exact ⟨Nat.le_refl _, Or.inr ⟨rfl, rfl⟩⟩
        · exact ih (i + 1) b hb
      · rename_i indent role hsibling
        intro b hb
        rcases mem_cons.mp hb with rfl | hb
        · split
          · exact ⟨tailStartOf_le _ indent role, Or.inl ((headEndOf_start hline hsibling).1 hnone)⟩
          · exact ⟨Nat.le_refl _, Or.inr ⟨rfl, rfl⟩⟩
        · exact ih _ b hb

theorem kept_sorted_iff (text : JsString) : (keptOf (collapseLines options text)).Pairwise (· < ·) ↔
      Excerpt.Apart (excerpts options text) := by
  unfold collapseLines
  rw [keptOf_collapseFrom]
  refine (consecutive_excerptsFrom _ 0 (Nat.zero_le _) (by omega)).sorted_iff ?_
  by_cases hpos : 0 < options.keepHead
  · exact Or.inl (heads_of_pos hpos _ 0)
  · exact Or.inr (heads_of_nonpos (Int.not_lt.mp hpos) _ 0)

theorem kept_lt (text : JsString) : ∀ k ∈ keptOf (collapseLines options text),
    k < (linesOf text).length := by
  intro k hk
  unfold collapseLines at hk
  rw [keptOf_collapseFrom] at hk
  obtain ⟨b, hb, hkept⟩ := mem_flatMap.mp hk
  have hconsecutive : Excerpt.Consecutive 0
      (excerptsFrom (linesOf text) options (linesOf text).length 0) (linesOf text).length :=
    consecutive_excerptsFrom _ 0 (Nat.zero_le _) (by omega)
  have hbounds := hconsecutive.bounds hb
  have hhead : b.headEnd ≤ (linesOf text).length := by
    by_cases hpos : 0 < options.keepHead
    · exact (heads_of_pos hpos _ 0 b hb).2.1
    · have hcase := (heads_of_nonpos (Int.not_lt.mp hpos) _ 0 b hb).2
      omega
  have hmem := Excerpt.mem_kept.mp hkept
  omega

/-! ## Anchors -/

variable {ref : JsString}

theorem mem_keepLines {i j k : Nat} (hi : i ≤ k) (hj : k < j) : OutLine.kept k ∈ keepLines i j := by
  refine mem_map.mpr ⟨k, ?_, rfl⟩
  rw [mem_range'_1]
  omega

theorem mem_slice {k headEnd : Nat} {line : JsString} (hline : lines[k]? = some line)
    (hhead : headEnd ≤ k) {tailStart : Option Nat} (htail : ∀ t ∈ tailStart, k < t) :
    line ∈ slice lines headEnd tailStart := by
  have hdrop : ∀ l : List JsString, l[k]? = some line → line ∈ l.drop headEnd := by
    intro l hl
    refine mem_of_getElem? (i := k - headEnd) ?_
    rw [getElem?_drop, Nat.add_sub_cancel' hhead]
    exact hl
  cases tailStart with
  | none => exact hdrop lines hline
  | some t =>
    refine hdrop (lines.take t) ?_
    rw [getElem?_take_of_lt (htail t rfl)]
    exact hline

theorem ref_of_collapseRun {i j k : Nat} {line indent role : JsString} (hi : i ≤ k) (hj : k < j)
    (hline : lines[k]? = some line) (href : IsRef ref) (hin : ref <:+: line) :
    ∃ out ∈ collapseRun lines options i j indent role, ref <:+: out.render lines := by
  have hkept : ref <:+: (OutLine.kept k).render lines := by
    show ref <:+: lines[k]?.getD []
    rw [hline]
    exact hin
  unfold collapseRun
  dsimp only
  by_cases hhead : k < headEndOf lines options i indent role
  · exact ⟨.kept k, mem_append_left _ (mem_keepLines hi hhead), hkept⟩
  by_cases htail : ∀ t ∈ tailStartOf lines options j indent role, k < t
  · have hne := href.ne_nil
    have hbreak : newline ∉ ref := href.not_mem (by decide) (by decide)
    have hblank : unit ' ' ∉ ref := href.not_mem (by decide) (by decide)
    have hmem : ref ∈ extractRefs (join [newline] (slice lines
        (headEndOf lines options i indent role) (tailStartOf lines options j indent role))) := by
      refine mem_extractRefs.mpr ⟨href, (infix_join hbreak hne _).mpr ⟨line, ?_, hin⟩⟩
      exact mem_slice hline (Nat.not_lt.mp hhead) htail
    generalize extractRefs (join [newline] (slice lines
      (headEndOf lines options i indent role) (tailStartOf lines options j indent role))) = refs at *
    refine ⟨.marker (refsNotice indent role refs), mem_append_right _ (mem_cons_of_mem _
      (mem_append_left _ ?_)), ?_⟩
    · rw [if_pos (length_pos_of_mem hmem)]
      exact mem_singleton_self _
    · have hjoin := (infix_join hblank hne _).mpr ⟨ref, hmem, infix_rfl⟩
      refine hjoin.trans ?_
      show _ <:+: refsNotice indent role refs
      exact (suffix_append _ _).isInfix.trans (prefix_append _ _).isInfix
  · obtain ⟨t, hnot⟩ := not_forall.mp htail
    obtain ⟨ht, hle⟩ := Classical.not_imp.mp hnot
    refine ⟨.kept k, mem_append_right _ (mem_cons_of_mem _ (mem_append_right _ ?_)), hkept⟩
    rw [Option.mem_def.mp ht]
    exact mem_keepLines (Nat.not_lt.mp hle) hj

theorem ref_of_collapseFrom (fuel i : Nat) {k : Nat} {line : JsString} (hi : i ≤ k)
    (hfuel : lines.length ≤ i + fuel) (hline : lines[k]? = some line) (href : IsRef ref)
    (hin : ref <:+: line) : ∃ out ∈ collapseFrom lines options fuel i, ref <:+: out.render lines := by
  have hkept : ref <:+: (OutLine.kept k).render lines := by
    show ref <:+: lines[k]?.getD []
    rw [hline]
    exact hin
  have hk := (List.getElem?_eq_some_iff.mp hline).1
  induction fuel generalizing i with
  | zero => omega
  | succ fuel ih =>
    unfold collapseFrom
    split
    · rename_i hnone
      have hend := List.getElem?_eq_none_iff.mp hnone
      omega
    · rename_i first hfirst
      split
      · by_cases heq : k = i
        · subst heq
          exact ⟨.kept k, mem_cons_self, hkept⟩
        · obtain ⟨out, hout, hrender⟩ := ih (i + 1) (by omega) (by omega)
          exact ⟨out, mem_cons_of_mem _ hout, hrender⟩
      · rename_i indent role hsibling
        obtain ⟨hstart, -⟩ := runEnd_bounds hfirst hsibling
        dsimp only
        by_cases hj : k < runEnd lines i indent role
        · split
          · obtain ⟨out, hout, hrender⟩ := ref_of_collapseRun hi hj hline href hin
            exact ⟨out, mem_append_left _ hout, hrender⟩
          · exact ⟨.kept k, mem_append_left _ (mem_keepLines hi hj), hkept⟩
        · obtain ⟨out, hout, hrender⟩ := ih _ (Nat.not_lt.mp hj) (by omega)
          exact ⟨out, mem_append_right _ hout, hrender⟩

theorem refs_kept (options : CollapseOptions) (text : JsString) :
    ∀ ref ∈ extractRefs text, ref ∈ extractRefs (collapseRepeated options text) := by
  intro ref hmem
  obtain ⟨href, hin⟩ := mem_extractRefs.mp hmem
  have hne := href.ne_nil
  have hbreak : newline ∉ ref := href.not_mem (by decide) (by decide)
  have htext : join [newline] (linesOf text) = text := intercalate_splitOn newline
  rw [← htext, infix_join hbreak hne] at hin
  obtain ⟨line, hline, hpart⟩ := hin
  obtain ⟨k, hk⟩ := mem_iff_getElem?.mp hline
  obtain ⟨out, hout, hrender⟩ : ∃ out ∈ collapseLines options text,
      ref <:+: out.render (linesOf text) :=
    ref_of_collapseFrom _ 0 (Nat.zero_le k) (by omega) hk href hpart
  refine mem_extractRefs.mpr ⟨href, (infix_join hbreak hne _).mpr ?_⟩
  exact ⟨_, mem_map.mpr ⟨out, hout, rfl⟩, hrender⟩

/-! ## The pass -/

/-- Every anchor is kept, and the lines that are kept are lines of the text in their order, none
of them twice. -/
structure Faithful (options : CollapseOptions) (text : JsString) : Prop where
  refs : ∀ ref ∈ extractRefs text, ref ∈ extractRefs (collapseRepeated options text)
  within : ∀ k ∈ keptOf (collapseLines options text), k < (linesOf text).length
  sorted : (keptOf (collapseLines options text)).Pairwise (· < ·)

/-- The lines are kept in their order and once if and only if the head and the tail of every run
are apart. -/
theorem collapseRepeated_iff (options : CollapseOptions) (text : JsString) :
    Faithful options text ↔ Excerpt.Apart (excerpts options text) :=
  ⟨fun h => (kept_sorted_iff text).mp h.sorted,
    fun h => ⟨refs_kept options text, kept_lt text, (kept_sorted_iff text).mpr h⟩⟩

/-- One item with two lines below it is a run of three lines. -/
theorem not_faithful_single : ¬ Faithful ⟨3, 2, 1⟩ (js "- item\n  first\n  second") := by
  intro h
  have hkept : keptOf (collapseLines ⟨3, 2, 1⟩ (js "- item\n  first\n  second")) =
      [0, 1, 2, 0, 1, 2] := by decide
  have hsorted := h.sorted
  exact absurd hsorted (by decide)

end RedRouter.Compression.Accessibility
