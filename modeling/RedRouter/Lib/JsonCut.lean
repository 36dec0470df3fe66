import RedRouter.Lib.JsValue

/-!
# Where a JSON text ends

The JSON text of a value shows where it ends: brackets pair up in it, and
outside of its strings a comma, a colon or a closing bracket stands only
inside of them.  `afterValue` reads a text up to the first of these marks that
is not inside.  It reads over a whole value (`balanced_serialize`), so two
values with the same text up to such a mark have the same text (`cut_value`).

From that, the texts of two objects are equal only when those of their members
are (`serializeMembers_inj`).
-/

namespace RedRouter.JsValue

open List

inductive ScanMode where
  | plain
  | inString
  | escaped

variable (c : UInt16)

def isOpen : Bool := c == unit '[' || c == unit '\x7b'

def isClose : Bool := c == unit ']' || c == unit '\x7d'

def isSeparator : Bool := c == unit ',' || c == unit ':'

/-- A unit that is none of the marks of JSON. -/
def isPlain : Bool :=
  !(c == unit '"' || isOpen c || isClose c || isSeparator c)

/-- What is left of a text from the first mark on that is not inside of `depth`
brackets. -/
def afterValue : Nat → ScanMode → JsString → JsString
  | _, _, [] => []
  | depth, .inString, c :: cs =>
      if c = unit '"' then afterValue depth .plain cs
      else if c = unit '\\' then afterValue depth .escaped cs
      else afterValue depth .inString cs
  | depth, .escaped, _ :: cs => afterValue depth .inString cs
  | 0, .plain, c :: cs =>
      if c = unit '"' then afterValue 0 .inString cs
      else if isOpen c then afterValue 1 .plain cs
      else if isClose c || isSeparator c then c :: cs
      else afterValue 0 .plain cs
  | depth + 1, .plain, c :: cs =>
      if c = unit '"' then afterValue (depth + 1) .inString cs
      else if isOpen c then afterValue (depth + 2) .plain cs
      else if isClose c then afterValue depth .plain cs
      else afterValue (depth + 1) .plain cs

/-- A text that is read over at any depth. -/
def Balanced (t : JsString) : Prop :=
  ∀ depth rest, afterValue depth .plain (t ++ rest) = afterValue depth .plain rest

/-- A text that is read over inside of a bracket. -/
def Inside (t : JsString) : Prop :=
  ∀ depth rest, afterValue (depth + 1) .plain (t ++ rest) = afterValue (depth + 1) .plain rest

/-- A text that is read over inside of a string. -/
def Quoted (t : JsString) : Prop :=
  ∀ depth rest, afterValue depth .inString (t ++ rest) = afterValue depth .inString rest

theorem Balanced.inside {t : JsString} (h : Balanced t) : Inside t := fun depth => h (depth + 1)

theorem Inside.append {t t' : JsString} (h : Inside t) (h' : Inside t') : Inside (t ++ t') := by
  intro depth rest
  rw [append_assoc, h, h']

theorem inside_nil : Inside [] := fun _ _ => rfl

theorem Quoted.append {t t' : JsString} (h : Quoted t) (h' : Quoted t') : Quoted (t ++ t') := by
  intro depth rest
  rw [append_assoc, h, h']

theorem balanced_nil : Balanced [] := fun _ _ => rfl

theorem balanced_plain {c : UInt16} (hc : isPlain c = true) : Balanced [c] := by
  intro depth rest
  simp only [isPlain, Bool.not_eq_true', Bool.or_eq_false_iff, beq_eq_false_iff_ne] at hc
  obtain ⟨⟨⟨hquote, hopen⟩, hclose⟩, hsep⟩ := hc
  cases depth with
  | zero => simp [afterValue, hquote, hopen, hclose, hsep]
  | succ depth => simp [afterValue, hquote, hopen, hclose]

theorem balanced_plains {t : JsString} (h : ∀ c ∈ t, isPlain c = true) : Balanced t := by
  induction t with
  | nil => exact balanced_nil
  | cons c cs ih =>
    intro depth rest
    have hhead := balanced_plain (h c mem_cons_self) depth (cs ++ rest)
    have htail := ih (fun d hd => h d (mem_cons_of_mem _ hd)) depth rest
    exact hhead.trans htail

theorem inside_separator {c : UInt16} (hc : isSeparator c = true) : Inside [c] := by
  intro depth rest
  have hmarks : c = unit ',' ∨ c = unit ':' := by
    simpa [isSeparator] using hc
  rcases hmarks with rfl | rfl
  all_goals simp [afterValue, isOpen, isClose, unit]

theorem Inside.bracketed {t : JsString} (h : Inside t) {first last : UInt16}
    (hfirst : isOpen first = true) (hlast : isClose last = true) :
    Balanced ([first] ++ (t ++ [last])) := by
  have hquote : first ≠ unit '"' := by
    rintro rfl
    exact absurd hfirst (by decide)
  have hquote' : last ≠ unit '"' := by
    rintro rfl
    exact absurd hlast (by decide)
  have hopen : isOpen last = false := by
    have hmarks : last = unit ']' ∨ last = unit '\x7d' := by
      simpa [isClose] using hlast
    rcases hmarks with rfl | rfl
    all_goals decide
  intro depth rest
  have hinside : afterValue (depth + 1) .plain (t ++ last :: rest) = afterValue depth .plain rest := by
    rw [h depth]
    simp [afterValue, hquote', hopen, hlast]
  cases depth with
  | zero => simpa [afterValue, hquote, hfirst] using hinside
  | succ depth => simpa [afterValue, hquote, hfirst] using hinside

/-! ## Strings -/

theorem quoted_unit {c : UInt16} (hquote : c ≠ unit '"') (hescape : c ≠ unit '\\') :
    Quoted [c] := by
  intro depth rest
  cases depth <;> simp [afterValue, hquote, hescape]

theorem quoted_escape : Quoted (unit '\\' :: [c]) := by
  intro depth rest
  cases depth <;> simp [afterValue, unit]

theorem quoted_hexDigit {n : Nat} (h : n < 16) : Quoted [hexDigit n] := by
  have hall : ∀ i : Fin 16, hexDigit i.val ≠ unit '"' ∧ hexDigit i.val ≠ unit '\\' := by decide
  obtain ⟨hquote, hescape⟩ := hall ⟨n, h⟩
  exact quoted_unit hquote hescape

theorem quoted_unicodeEscape : Quoted (js "\\u" ++ hex4 c) := by
  have hdigits : ∀ n, Quoted [hexDigit (n % 16)] :=
    fun n => quoted_hexDigit (Nat.mod_lt _ (by decide))
  have hmark : Quoted (js "\\u") := quoted_escape (unit 'u')
  have hfour : Quoted (hex4 c) :=
    (((hdigits _).append (hdigits _)).append (hdigits _)).append (hdigits _)
  exact hmark.append hfour

theorem quoted_singleEscape {c : UInt16} {escape : JsString} (h : singleEscape c = some escape) :
    Quoted escape := by
  unfold singleEscape at h
  split_ifs at h
  all_goals
    obtain rfl := Option.some.inj h
    exact quoted_escape _

theorem mem_codePoints {s p : JsString} (h : p ∈ codePoints s) :
    (∃ c, p = [c]) ∨ ∃ c d, p = [c, d] ∧ isHigh c = true ∧ isLow d = true := by
  induction s using codePoints.induct with
  | case1 => simp [codePoints] at h
  | case2 c =>
    simp only [codePoints, mem_singleton] at h
    exact Or.inl ⟨c, h⟩
  | case3 c d rest hpair ih =>
    rw [codePoints, if_pos hpair] at h
    rcases mem_cons.mp h with rfl | hrest
    · rw [Bool.and_eq_true] at hpair
      exact Or.inr ⟨c, d, rfl, hpair⟩
    · exact ih hrest
  | case4 c d rest hpair ih =>
    rw [codePoints, if_neg hpair] at h
    rcases mem_cons.mp h with rfl | hrest
    · exact Or.inl ⟨c, rfl⟩
    · exact ih hrest

theorem quoted_quoteCodePoint {s p : JsString} (h : p ∈ codePoints s) :
    Quoted (quoteCodePoint p) := by
  rcases mem_codePoints h with ⟨c, rfl⟩ | ⟨c, d, rfl, hc, hd⟩
  · cases hsingle : singleEscape c with
    | some escape =>
      simp only [quoteCodePoint, hsingle]
      exact quoted_singleEscape hsingle
    | none =>
      simp only [quoteCodePoint, hsingle]
      split
      · exact quoted_unicodeEscape c
      · apply quoted_unit
        all_goals
          rintro rfl
          exact absurd hsingle (by decide)
  · have hsurrogate : ∀ u : UInt16, isHigh u = true ∨ isLow u = true → Quoted [u] := by
      intro u hu
      apply quoted_unit
      all_goals
        rintro rfl
        exact absurd hu (by decide)
    exact (hsurrogate c (Or.inl hc)).append (hsurrogate d (Or.inr hd))

theorem quoted_flatMap {ps : List JsString} (h : ∀ p ∈ ps, Quoted (quoteCodePoint p)) :
    Quoted (ps.flatMap quoteCodePoint) := by
  induction ps with
  | nil => exact fun _ _ => rfl
  | cons p ps ih =>
    exact (h p mem_cons_self).append (ih fun q hq => h q (mem_cons_of_mem _ hq))

theorem balanced_quote (s : JsString) : Balanced (quote s) := by
  intro depth rest
  have hinside := quoted_flatMap (fun p (hp : p ∈ codePoints s) => quoted_quoteCodePoint hp) depth
    (js "\"" ++ rest)
  have hclosed : afterValue depth .inString (js "\"" ++ rest) = afterValue depth .plain rest := by
    show afterValue depth .inString (unit '"' :: rest) = _
    cases depth <;> simp [afterValue]
  have hopened : afterValue depth .plain (quote s ++ rest) =
      afterValue depth .inString ((codePoints s).flatMap quoteCodePoint ++ (js "\"" ++ rest)) := by
    show afterValue depth .plain (unit '"' :: (((codePoints s).flatMap quoteCodePoint ++
      js "\"") ++ rest)) = _
    cases depth <;> simp [afterValue]
  rw [hopened, hinside, hclosed]

/-! ## Values -/

variable {fmt : UInt64 → JsString}

theorem inside_join {parts : List JsString} (h : ∀ part ∈ parts, Inside part) :
    Inside (JsString.join (js ",") parts) := by
  cases parts with
  | nil => exact inside_nil
  | cons part parts =>
    rw [JsString.join_cons]
    refine (h part mem_cons_self).append ?_
    have hrest := fun next hnext => h next (mem_cons_of_mem part hnext)
    clear h
    induction parts with
    | nil => exact inside_nil
    | cons next parts ih =>
      have hnext : Inside (js "," ++ next) :=
        (inside_separator (by decide)).append (hrest next mem_cons_self)
      exact hnext.append (ih fun later hlater => hrest later (mem_cons_of_mem _ hlater))

mutual

theorem balanced_serialize (hfmt : ∀ bits, ∀ c ∈ fmt bits, isPlain c = true) (value : JsValue) :
    Balanced (serialize fmt value) := by
  cases value with
  | undefined => exact balanced_nil
  | null => exact balanced_plains (t := js "null") (all_eq_true.mp (by decide))
  | bool b =>
    cases b with
    | false => exact balanced_plains (t := js "false") (all_eq_true.mp (by decide))
    | true => exact balanced_plains (t := js "true") (all_eq_true.mp (by decide))
  | num bits =>
    rw [serialize]
    split
    · exact balanced_plains (hfmt bits)
    · exact balanced_plains (all_eq_true.mp (by decide))
  | str s => exact balanced_quote s
  | arr items =>
    exact (inside_join (inside_serializeItems hfmt items)).bracketed (by decide) (by decide)
  | obj members =>
    exact (inside_join (inside_serializeMembers hfmt members)).bracketed (by decide) (by decide)

theorem inside_serializeItems (hfmt : ∀ bits, ∀ c ∈ fmt bits, isPlain c = true)
    (items : List JsValue) : ∀ part ∈ serializeItems fmt items, Inside part := by
  cases items with
  | nil => simp [serializeItems]
  | cons item items =>
    intro part hpart
    rcases mem_cons.mp hpart with rfl | hrest
    · split
      · exact (balanced_plains (all_eq_true.mp (by decide))).inside
      · exact (balanced_serialize hfmt item).inside
    · exact inside_serializeItems hfmt items part hrest

theorem inside_serializeMembers (hfmt : ∀ bits, ∀ c ∈ fmt bits, isPlain c = true)
    (members : List (JsString × JsValue)) :
    ∀ part ∈ serializeMembers fmt members, Inside part := by
  cases members with
  | nil => simp [serializeMembers]
  | cons member members =>
    obtain ⟨key, item⟩ := member
    intro part hpart
    rw [serializeMembers] at hpart
    split at hpart
    · exact inside_serializeMembers hfmt members part hpart
    · rcases mem_cons.mp hpart with rfl | hrest
      · exact (balanced_quote key).inside.append
          ((inside_separator (by decide)).append (balanced_serialize hfmt item).inside)
      · exact inside_serializeMembers hfmt members part hrest

end

/-! ## Cuts -/

/-- A unit that a value does not reach over. -/
def isMark : Bool := isClose c || isSeparator c

theorem afterValue_mark {c : UInt16} (hc : isMark c = true) (rest : JsString) :
    afterValue 0 .plain (c :: rest) = c :: rest := by
  have hquote : c ≠ unit '"' := by
    rintro rfl
    exact absurd hc (by decide)
  have hopen : isOpen c = false := by
    have hmarks : (c = unit ']' ∨ c = unit '}') ∨ c = unit ',' ∨ c = unit ':' := by
      simpa [isMark, isClose, isSeparator] using hc
    rcases hmarks with (rfl | rfl) | rfl | rfl
    all_goals decide
  unfold isMark at hc
  simp [afterValue, hquote, hopen, hc]

theorem cut_balanced {t t' : JsString} (ht : Balanced t) (ht' : Balanced t') {c c' : UInt16}
    (hc : isMark c = true) (hc' : isMark c' = true) {rest rest' : JsString}
    (h : t ++ c :: rest = t' ++ c' :: rest') : t = t' ∧ c :: rest = c' :: rest' := by
  have hrest : c :: rest = c' :: rest' := by
    calc c :: rest = afterValue 0 .plain (t ++ c :: rest) := by rw [ht 0, afterValue_mark hc]
      _ = afterValue 0 .plain (t' ++ c' :: rest') := by rw [h]
      _ = c' :: rest' := by rw [ht' 0, afterValue_mark hc']
  rw [hrest] at h
  exact ⟨append_cancel_right h, hrest⟩

/-! ## Members -/

variable (fmt) in
def memberTexts : List (JsString × JsValue) → List (JsString × JsString)
  | [] => []
  | (key, item) :: members =>
      if item.isOmitted then memberTexts members
      else (quote key, serialize fmt item) :: memberTexts members

variable (fmt) in
theorem memberTexts_append (members more : List (JsString × JsValue)) :
    memberTexts fmt (members ++ more) = memberTexts fmt members ++ memberTexts fmt more := by
  induction members with
  | nil => rfl
  | cons member members ih =>
    rw [cons_append, memberTexts, memberTexts, ih]
    split <;> rfl

variable (fmt) in
theorem length_memberTexts {members : List (JsString × JsValue)}
    (h : ∀ m ∈ members, m.2.isOmitted = false) :
    (memberTexts fmt members).length = members.length := by
  induction members with
  | nil => rfl
  | cons member members ih =>
    obtain ⟨key, item⟩ := member
    have hitem : item.isOmitted = false := h (key, item) mem_cons_self
    rw [memberTexts, if_neg (by simp [hitem]), length_cons, length_cons,
      ih fun m hm => h m (mem_cons_of_mem _ hm)]

def memberText (e : JsString × JsString) : JsString := e.1 ++ (js ":" ++ e.2)

theorem serializeMembers_eq (members : List (JsString × JsValue)) :
    serializeMembers fmt members = (memberTexts fmt members).map memberText := by
  induction members with
  | nil => rfl
  | cons member members ih =>
    rw [serializeMembers, memberTexts]
    split
    · exact ih
    · rw [map_cons, ih]
      rfl

variable (es : List (JsString × JsString))

/-- Both parts of a member are read over. -/
def BalancedMembers : Prop :=
  ∀ e ∈ es, Balanced e.1 ∧ Balanced e.2

theorem balanced_memberTexts (hfmt : ∀ bits, ∀ c ∈ fmt bits, isPlain c = true)
    (members : List (JsString × JsValue)) : BalancedMembers (memberTexts fmt members) := by
  induction members with
  | nil => exact fun e he => absurd he not_mem_nil
  | cons member members ih =>
    obtain ⟨key, item⟩ := member
    rw [memberTexts]
    split
    · exact ih
    · intro e he
      rcases mem_cons.mp he with rfl | hrest
      · exact ⟨balanced_quote key, balanced_serialize hfmt item⟩
      · exact ih e hrest

/-- The text of an object after its first member. -/
def closing : JsString :=
  (es.map memberText).flatMap (fun next => js "," ++ next) ++ js "\x7d"

theorem closing_cons (e : JsString × JsString) (es : List (JsString × JsString)) :
    closing (e :: es) = unit ',' :: (e.1 ++ unit ':' :: (e.2 ++ closing es)) := by
  rw [closing, map_cons, flatMap_cons, append_assoc, append_assoc, memberText,
    append_assoc, append_assoc]
  rfl

theorem closing_nil : closing [] = [unit '}'] := rfl

theorem closing_eq_mark : ∃ c rest, closing es = c :: rest ∧ isMark c = true := by
  cases es with
  | nil => exact ⟨_, _, closing_nil, by decide⟩
  | cons e es => exact ⟨_, _, closing_cons e es, by decide⟩

theorem cut_member {e e' : JsString × JsString} (he : Balanced e.1 ∧ Balanced e.2)
    (he' : Balanced e'.1 ∧ Balanced e'.2) {es es' : List (JsString × JsString)}
    (h : e.1 ++ unit ':' :: (e.2 ++ closing es) = e'.1 ++ unit ':' :: (e'.2 ++ closing es')) :
    e = e' ∧ closing es = closing es' := by
  obtain ⟨hkey, hrest⟩ := cut_balanced he.1 he'.1 (by decide) (by decide) h
  have hvalue : e.2 ++ closing es = e'.2 ++ closing es' := (List.cons.inj hrest).2
  obtain ⟨c, rest, hclosing, hc⟩ := closing_eq_mark es
  obtain ⟨c', rest', hclosing', hc'⟩ := closing_eq_mark es'
  rw [hclosing, hclosing'] at hvalue ⊢
  obtain ⟨htext, hsame⟩ := cut_balanced he.2 he'.2 hc hc' hvalue
  exact ⟨Prod.ext hkey htext, hsame⟩

theorem closing_inj {es es' : List (JsString × JsString)} (hes : BalancedMembers es)
    (hes' : BalancedMembers es') (h : closing es = closing es') : es = es' := by
  induction es generalizing es' with
  | nil =>
    cases es' with
    | nil => rfl
    | cons e' es' =>
      exact absurd (List.cons.inj h).1 (by decide)
  | cons e es ih =>
    cases es' with
    | nil =>
      exact absurd (List.cons.inj h).1 (by decide)
    | cons e' es' =>
      rw [closing_cons, closing_cons] at h
      obtain ⟨hsame, hrest⟩ := cut_member (hes e mem_cons_self) (hes' e' mem_cons_self)
        (List.cons.inj h).2
      rw [hsame, ih (fun d hd => hes d (mem_cons_of_mem _ hd))
        (fun d hd => hes' d (mem_cons_of_mem _ hd)) hrest]

/-- The text of an object after its opening bracket. -/
def inBraces : List (JsString × JsString) → JsString
  | [] => [unit '\x7d']
  | e :: es => e.1 ++ unit ':' :: (e.2 ++ closing es)

theorem serialize_obj (members : List (JsString × JsValue)) :
    serialize fmt (obj members) = unit '\x7b' :: inBraces (memberTexts fmt members) := by
  rw [serialize, serializeMembers_eq]
  cases memberTexts fmt members with
  | nil => rfl
  | cons e es =>
    rw [map_cons, JsString.join_cons, memberText]
    simp only [append_assoc]
    rfl

theorem serialize_obj_inj (hfmt : ∀ bits, ∀ c ∈ fmt bits, isPlain c = true)
    {members members' : List (JsString × JsValue)} :
    serialize fmt (obj members) = serialize fmt (obj members') ↔
      memberTexts fmt members = memberTexts fmt members' := by
  have hes := balanced_memberTexts hfmt members
  have hes' := balanced_memberTexts hfmt members'
  rw [serialize_obj, serialize_obj]
  constructor
  · intro h
    have h := (List.cons.inj h).2
    cases hm : memberTexts fmt members with
    | nil =>
      cases hm' : memberTexts fmt members' with
      | nil => rfl
      | cons e' es' =>
        rw [hm, hm'] at h
        rw [hm'] at hes'
        have hcut := cut_balanced balanced_nil (hes' e' mem_cons_self).1
          (c := unit '}') (by decide) (by decide) h
        exact absurd (List.cons.inj hcut.2).1 (by decide)
    | cons e es =>
      cases hm' : memberTexts fmt members' with
      | nil =>
        rw [hm, hm'] at h
        rw [hm] at hes
        have hcut := cut_balanced (hes e mem_cons_self).1 balanced_nil
          (c := unit ':') (by decide) (by decide) h
        exact absurd (List.cons.inj hcut.2).1 (by decide)
      | cons e' es' =>
        rw [hm, hm'] at h
        rw [hm] at hes
        rw [hm'] at hes'
        obtain ⟨hsame, hrest⟩ :=
          cut_member (hes e mem_cons_self) (hes' e' mem_cons_self) h
        rw [hsame, closing_inj (fun d hd => hes d (mem_cons_of_mem _ hd))
          (fun d hd => hes' d (mem_cons_of_mem _ hd)) hrest]
  · intro h
    rw [h]

theorem mem_memberTexts {members : List (JsString × JsValue)} {e : JsString × JsString}
    (h : e ∈ memberTexts fmt members) : e.1 ∈ members.map fun m => quote m.1 := by
  induction members with
  | nil => simp [memberTexts] at h
  | cons member members ih =>
    rw [memberTexts] at h
    split at h
    · exact mem_cons_of_mem _ (ih h)
    · rcases mem_cons.mp h with rfl | hrest
      · exact mem_cons_self
      · exact mem_cons_of_mem _ (ih hrest)

theorem memberTexts_ne {key : JsString} {text : JsString} {es : List (JsString × JsString)}
    {members : List (JsString × JsValue)} (hkey : quote key ∉ members.map fun m => quote m.1) :
    memberTexts fmt members ≠ (quote key, text) :: es := by
  intro h
  exact hkey (mem_memberTexts (h ▸ mem_cons_self))

/-- Objects with the same keys, each once, are written alike exactly when each
of their members is. -/
theorem memberTexts_eq_iff {members members' : List (JsString × JsValue)}
    (hkeys : members.map Prod.fst = members'.map Prod.fst)
    (hnodup : (members.map fun m => quote m.1).Nodup) :
    memberTexts fmt members = memberTexts fmt members' ↔
      List.Forall₂ (fun m m' => stringify fmt m.2 = stringify fmt m'.2) members members' := by
  induction members generalizing members' with
  | nil =>
    obtain rfl : members' = [] := by simpa using hkeys.symm
    simp
  | cons member members ih =>
    cases members' with
    | nil => simp at hkeys
    | cons member' members' =>
      obtain ⟨key, item⟩ := member
      obtain ⟨key', item'⟩ := member'
      obtain ⟨hkey, hrest⟩ := List.cons.inj hkeys
      obtain rfl : key = key' := hkey
      obtain ⟨hfresh, hnodup⟩ := nodup_cons.mp hnodup
      have hfresh' : quote key ∉ members'.map fun m => quote m.1 := by
        have hquotes := congrArg (List.map quote) hrest
        rw [map_map, map_map] at hquotes
        exact hquotes ▸ hfresh
      rw [forall₂_cons, ← ih hrest hnodup, memberTexts, memberTexts, stringify, stringify]
      by_cases hitem : item.isOmitted = true
      · by_cases hitem' : item'.isOmitted = true
        · simp [hitem, hitem']
        · simpa [hitem, hitem'] using memberTexts_ne hfresh
      · by_cases hitem' : item'.isOmitted = true
        · simpa [hitem, hitem'] using (memberTexts_ne hfresh').symm
        · simp [hitem, hitem']

end RedRouter.JsValue
