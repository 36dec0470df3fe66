import RedRouter.Lib.Utf8Decoder

/-!
# Event streams

The reader of server-sent events, as the standard has it: lines end with a line
feed, a carriage return or both, the data lines up to a blank line are the data
of one event, and what follows the last blank line is dropped.

A reader at the beginning of an event reads an event that is written there
(`read_event`).  Inside an event it does not: what was begun swallows the event
or changes its data (`read_glued`).
-/

namespace RedRouter

open List

def lf : UInt16 := 0x0A

def cr : UInt16 := 0x0D

/-- A text inside one line. -/
def NoBreak (l : JsString) : Prop := ∀ c ∈ l, c ≠ lf ∧ c ≠ cr

theorem noBreak_nil : NoBreak [] := by
  intro c hc
  cases hc

theorem noBreak_of_all {l : JsString} (h : (l.all fun c => c != lf && c != cr) = true) :
    NoBreak l := by
  intro c hc
  have hall := all_eq_true.mp h c hc
  rw [Bool.and_eq_true, bne_iff_ne, bne_iff_ne] at hall
  exact hall

theorem noBreak_append {l l' : JsString} : NoBreak (l ++ l') ↔ NoBreak l ∧ NoBreak l' := by
  exact forall_mem_append

/-- A reader of events: the line and the data of the event under way, and the
data of the events read. -/
structure EventStream where
  afterCr : Bool := false
  line : JsString := []
  data : List JsString := []
  events : List JsString := []
deriving DecidableEq

variable (text : JsString)

namespace EventStream

/-- One space after the colon is not part of the value. -/
def dropSpace : JsString → JsString
  | [] => []
  | c :: rest => if c = unit ' ' then rest else c :: rest

def lineData (line : JsString) : Option JsString :=
  if line = js "data" then some []
  else if JsString.startsWith line (js "data:") then some (dropSpace (line.drop 5))
  else none

/-- A blank line ends an event that has data. -/
def endEvent (s : EventStream) : EventStream :=
  if s.data = [] then s
  else { s with data := [], events := s.events ++ [JsString.join [lf] s.data] }

def endLine (s : EventStream) : EventStream :=
  let next := { s with line := [], afterCr := false }
  if s.line = [] then next.endEvent
  else
    match lineData s.line with
    | some value => { next with data := s.data ++ [value] }
    | none => next

def step (s : EventStream) (c : UInt16) : EventStream :=
  if c = lf then if s.afterCr then { s with afterCr := false } else s.endLine
  else if c = cr then { s.endLine with afterCr := true }
  else { s with line := s.line ++ [c], afterCr := false }

def read (s : EventStream) (text : JsString) : EventStream := text.foldl step s

/-- `text` as an event of its own. -/
def event : JsString := js "data: " ++ (text ++ js "\n\n")

variable {s : EventStream}

theorem read_append (text more : JsString) : s.read (text ++ more) = (s.read text).read more :=
  foldl_append

def Between (s : EventStream) : Prop := s.afterCr = false ∧ s.line = [] ∧ s.data = []

theorem read_noBreak {l : JsString} (hl : NoBreak l) (hcr : s.afterCr = false) :
    s.read l = { s with line := s.line ++ l } := by
  induction l generalizing s with
  | nil =>
    rw [append_nil]
    rfl
  | cons c l ih =>
    obtain ⟨hlf, hcrc⟩ := hl c mem_cons_self
    have hstep : s.step c = { s with line := s.line ++ [c] } := by
      unfold step
      rw [if_neg hlf, if_neg hcrc, ← hcr]
    show (s.step c).read l = _
    have hcr' : ({ s with line := s.line ++ [c] } : EventStream).afterCr = false := hcr
    rw [hstep, ih (fun d hd => hl d (mem_cons_of_mem c hd)) hcr']
    simp

theorem read_line {l : JsString} (hl : NoBreak l) (hcr : s.afterCr = false) :
    s.read (l ++ [lf]) = endLine { s with line := s.line ++ l } := by
  rw [read_append, read_noBreak hl hcr]
  show step _ lf = _
  unfold step
  rw [if_pos rfl, if_neg (by rw [hcr]; decide)]

theorem lineData_field (value : JsString) :
    lineData (js "data:" ++ value) = some (dropSpace value) := by
  unfold lineData
  rw [if_neg, if_pos]
  · rfl
  · exact isPrefixOf_iff_prefix.mpr (prefix_append _ _)
  · intro h
    have hlength := congrArg List.length h
    rw [length_append] at hlength
    exact absurd hlength (by
      show 5 + value.length ≠ 4
      omega)

theorem lineData_data : lineData (js "data: " ++ text) = some text :=
  lineData_field (unit ' ' :: text)

theorem event_lines : event text = (js "data: " ++ text ++ [lf]) ++ [lf] := by
  show js "data: " ++ (text ++ [lf, lf]) = _
  simp

theorem noBreak_data {text : JsString} (htext : NoBreak text) : NoBreak (js "data: " ++ text) :=
  noBreak_append.mpr ⟨noBreak_of_all (by decide), htext⟩

theorem endLine_fresh (s : EventStream) : s.endLine.line = [] ∧ s.endLine.afterCr = false := by
  unfold endLine endEvent
  dsimp only
  split <;> split <;> exact ⟨rfl, rfl⟩

theorem read_blank (hcr : s.afterCr = false) (hline : s.line = []) : s.read [lf] = s.endEvent := by
  show s.step lf = _
  unfold step endLine
  rw [if_pos rfl, if_neg (by rw [hcr]; decide), if_pos hline, ← hcr, ← hline]

/-- The line of the event and the blank line, whatever stands before them. -/
theorem read_event_eq (hcr : s.afterCr = false) {text : JsString} (htext : NoBreak text) :
    s.read (event text) =
      (endLine { s with line := s.line ++ (js "data: " ++ text) }).endEvent := by
  rw [event_lines, read_append, read_line (noBreak_data htext) hcr]
  obtain ⟨hline, hfresh⟩ := endLine_fresh { s with line := s.line ++ (js "data: " ++ text) }
  exact read_blank hfresh hline

theorem data_ne_nil : js "data: " ++ text ≠ [] := by
  intro h
  cases (append_eq_nil_iff.mp h).1

theorem read_event (h : s.Between) {text : JsString} (htext : NoBreak text) :
    s.read (event text) = { s with events := s.events ++ [text] } := by
  obtain ⟨hcr, hline, hdata⟩ := h
  rw [read_event_eq hcr htext, hline, nil_append]
  unfold endLine
  rw [if_neg (data_ne_nil text), lineData_data, hdata]
  have hjoin : JsString.join [lf] ([] ++ [text]) = text := by simp [JsString.join]
  unfold endEvent
  rw [if_neg (by simp), hjoin, hcr]

theorem length_lineData {line value : JsString} (h : lineData line = some value) :
    line = js "data" ∨ line.length ≤ value.length + 6 := by
  unfold lineData at h
  split at h
  · exact .inl ‹_›
  · split at h
    · refine .inr ?_
      have hdrop : (line.drop 5).length ≤ (dropSpace (line.drop 5)).length + 1 := by
        cases line.drop 5 with
        | nil => simp
        | cons c rest =>
          rw [dropSpace]
          split <;> simp
      rw [Option.some.inj h, length_drop] at hdrop
      omega
    · cases h

/-- Behind a line or an event that was begun, the event is not read as it is. -/
theorem read_glued (hcr : s.afterCr = false) (hbegun : s.line ≠ [] ∨ s.data ≠ [])
    (hdata : s.data ≠ [] → s.line = []) {text : JsString} (htext : NoBreak text) :
    ∃ more, more ≠ [text] ∧ s.read (event text) = { events := s.events ++ more } := by
  rw [read_event_eq hcr htext]
  have hne : s.line ++ (js "data: " ++ text) ≠ [] :=
    append_ne_nil_of_right_ne_nil _ (data_ne_nil text)
  unfold endLine
  dsimp only
  rw [if_neg hne]
  by_cases hempty : s.data = []
  · have hlong : 0 < s.line.length := length_pos_of_ne_nil (hbegun.resolve_right (· hempty))
    have hlength : (s.line ++ (js "data: " ++ text)).length = s.line.length + (6 + text.length) := by
      rw [length_append, length_append]
      rfl
    rw [hempty]
    split
    · rename_i value hvalue
      refine ⟨[value], ?_, ?_⟩
      · intro hsame
        rw [(List.cons.inj hsame).1] at hvalue
        rcases length_lineData hvalue with hshort | hshort
        · have hfour := congrArg List.length hshort
          rw [hlength] at hfour
          exact absurd hfour (by
            show s.line.length + (6 + text.length) ≠ 4
            omega)
        · omega
      · have hjoin : JsString.join [lf] ([] ++ [value]) = value := by simp [JsString.join]
        unfold endEvent
        rw [if_neg (by simp), hjoin]
    · refine ⟨[], (by simp), ?_⟩
      rw [append_nil]
      rfl
  · rw [hdata hempty, nil_append, lineData_data]
    refine ⟨[JsString.join [lf] (s.data ++ [text])], ?_, ?_⟩
    · intro hsame
      have htext' := htext lf
      rw [← (List.cons.inj hsame).1] at htext'
      refine absurd rfl (htext' ?_).1
      cases hfirst : s.data with
      | nil => exact absurd hfirst hempty
      | cons value values =>
        cases values with
        | nil => simp [JsString.join]
        | cons value' values => simp [JsString.join]
    · unfold endEvent
      rw [if_neg (append_ne_nil_of_right_ne_nil _ (cons_ne_nil _ _))]

end EventStream

end RedRouter
