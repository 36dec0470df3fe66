import Mathlib.Data.List.TakeWhile
import Mathlib.Data.Nat.Digits.Lemmas
import Mathlib.Tactic.IntervalCases
import RedRouter.Lib.Decimal
import RedRouter.Network.Ipv6Literal
import RedRouter.Network.PrivateHost

/-!
# The groups that `ipv6Hextets` reads

`ipv6Hextets` gives the groups of every literal that `ipVersion` accepts
(`ipv6Hextets_text`).  It first writes a dotted tail as two groups in hex
(`foldDottedTail_text`), so that the rest is about literals without one.
-/

namespace RedRouter.Network

open List JsString Regex Pattern

/-! ## What `ipVersion` accepts

`ipVersion` says 6 for the literals of RFC 4291 with an optional zone id, and
for nothing else (`ipVersion_eq_six_iff`).
-/

/-! ## Digits -/

theorem isHex_iff (u : UInt16) :
    ((unit '0' ≤ u && u ≤ unit '9') || (unit 'a' ≤ u && u ≤ unit 'f') ||
      (unit 'A' ≤ u && u ≤ unit 'F')) = true ↔ (JsonText.hexValue u).isSome = true := by
  unfold JsonText.hexValue JsonText.isDigit
  have h0 : unit '0' = 0x30 := rfl
  have h9 : unit '9' = 0x39 := rfl
  have ha : unit 'a' = 0x61 := rfl
  have hf : unit 'f' = 0x66 := rfl
  have hA : unit 'A' = 0x41 := rfl
  have hF : unit 'F' = 0x46 := rfl
  split_ifs <;> simp_all

variable {s : JsString}

theorem mem_v6Seg : s ∈ v6Seg.language ↔ ∃ g : HexGroup, g.text = s := by
  refine mem_language_units.trans ?_
  simp only [isHex_iff]
  constructor
  · rintro ⟨hne, hlength, hdigits⟩
    exact ⟨⟨s, hne, hlength, hdigits⟩, rfl⟩
  · rintro ⟨g, rfl⟩
    exact ⟨g.ne_nil, g.length_le, g.digits⟩

theorem mem_zoneStr : s ∈ zoneStr.language ↔ ∃ zone : Zone, js "%" ++ zone.text = s := by
  constructor
  · rintro ⟨t, ht, r, hr, rfl⟩
    rw [mem_language_lit.mp ht]
    obtain ⟨hne, hlength, hunits⟩ := mem_language_units.mp hr
    exact ⟨⟨r, hne, hlength, hunits⟩, rfl⟩
  · rintro ⟨zone, rfl⟩
    exact ⟨_, mem_language_lit.mpr rfl, zone.text,
      mem_language_units.mpr ⟨zone.ne_nil, zone.length_le, zone.units⟩, rfl⟩

theorem mem_range (first last : Char) (low n : Nat) (hfirst : (unit first).toNat = low)
    (hlast : (unit last).toNat + 1 = low + n) :
    s ∈ (range first last).language ↔ ∃ d : Fin n, s = [(low + d.val).toUInt16] := by
  have hbound := (unit last).toNat_lt
  have hvalue : ∀ d : Fin n, (low + d.val).toUInt16.toNat = low + d.val := by
    intro d
    simp only [UInt16.toNat_ofNat']
    omega
  rw [range, mem_language_unit]
  simp only [Bool.and_eq_true, decide_eq_true_eq, UInt16.le_iff_toNat_le]
  constructor
  · rintro ⟨u, rfl, hlow, hhigh⟩
    refine ⟨⟨u.toNat - low, by omega⟩, ?_⟩
    congr 1
    apply UInt16.toNat_inj.mp
    rw [hvalue]
    simp only
    omega
  · rintro ⟨d, rfl⟩
    refine ⟨_, rfl, ?_, ?_⟩
    all_goals
      rw [hvalue]
      omega

theorem mem_digit : s ∈ digit.language ↔ ∃ d : Fin 10, s = [(48 + d.val).toUInt16] :=
  mem_range '0' '9' 48 10 rfl rfl

theorem test_v4Seg (n : Fin 256) : test (whole v4Seg) (ofNat n.val) = true := by
  have hall : ∀ n : Fin 256, test (whole v4Seg) (ofNat n.val) = true := by decide +kernel
  exact hall n

variable {n : Nat}

theorem ofNat_lastDigit (hn : 0 < n) (d : Fin 10) :
    ofNat (10 * n + d.val) = ofNat n ++ [(48 + d.val).toUInt16] := by
  rw [ofNat_append hn d.isLt, ofNat_digit]

theorem mem_v4Seg : s ∈ v4Seg.language ↔ ∃ n : Fin 256, ofNat n = s := by
  constructor
  · intro hs
    rcases mem_language_alt.mp hs with h | hs
    · obtain ⟨t, ht, r, hr, rfl⟩ := mem_language_cat.mp h
      obtain ⟨d, rfl⟩ := (mem_range '0' '5' 48 6 rfl rfl).mp hr
      rw [mem_language_lit.mp ht]
      exact ⟨⟨10 * 25 + d, by omega⟩, ofNat_lastDigit (by decide) ⟨d, by omega⟩⟩
    rcases mem_language_alt.mp hs with h | hs
    · obtain ⟨t, ht, r, hr, rfl⟩ := mem_language_cat.mp h
      obtain ⟨t', ht', r', hr', rfl⟩ := mem_language_cat.mp hr
      obtain ⟨d, rfl⟩ := (mem_range '0' '4' 48 5 rfl rfl).mp ht'
      obtain ⟨d', rfl⟩ := mem_digit.mp hr'
      rw [mem_language_lit.mp ht]
      have htens := ofNat_lastDigit (n := 2) (by decide) ⟨d, by omega⟩
      refine ⟨⟨10 * (10 * 2 + d) + d', by omega⟩, ?_⟩
      rw [ofNat_lastDigit (by omega), htens, append_assoc]
      rfl
    rcases mem_language_alt.mp hs with h | h
    · obtain ⟨t, ht, r, hr, rfl⟩ := mem_language_cat.mp h
      obtain ⟨t', ht', r', hr', rfl⟩ := mem_language_cat.mp hr
      obtain ⟨d, rfl⟩ := mem_digit.mp ht'
      obtain ⟨d', rfl⟩ := mem_digit.mp hr'
      rw [mem_language_lit.mp ht]
      have htens := ofNat_lastDigit (n := 1) (by decide) d
      refine ⟨⟨10 * (10 * 1 + d) + d', by omega⟩, ?_⟩
      rw [ofNat_lastDigit (by omega), htens, append_assoc]
      rfl
    · obtain ⟨t, ht, r, hr, rfl⟩ := mem_language_cat.mp h
      obtain ⟨d', rfl⟩ := mem_digit.mp hr
      rcases mem_language_opt.mp ht with ht | rfl
      · obtain ⟨d, rfl⟩ := (mem_range '1' '9' 49 9 rfl rfl).mp ht
        have hfirst := ofNat_digit ⟨1 + d, by omega⟩
        refine ⟨⟨10 * (1 + d) + d', by omega⟩, ?_⟩
        rw [ofNat_lastDigit (by omega), hfirst, ← Nat.add_assoc]
      · exact ⟨⟨d', by omega⟩, ofNat_digit d'⟩
  · rintro ⟨n, rfl⟩
    exact (test_whole rfl).mp (test_v4Seg n)

theorem mem_dot : s ∈ (cat [v4Seg, lit (js ".")]).language ↔
    ∃ n : Fin 256, ofNat n ++ js "." = s := by
  constructor
  · rintro ⟨t, ht, r, hr, rfl⟩
    obtain ⟨n, rfl⟩ := mem_v4Seg.mp ht
    rw [mem_language_lit.mp hr]
    exact ⟨n, rfl⟩
  · rintro ⟨n, rfl⟩
    exact ⟨_, mem_v4Seg.mpr ⟨n, rfl⟩, _, mem_language_lit.mpr rfl, rfl⟩

theorem mem_v4Str : s ∈ v4Str.language ↔ ∃ v : Ipv4Address, v.text = s := by
  constructor
  · intro hs
    obtain ⟨t, ht, r, hr, rfl⟩ := mem_language_seq.mp hs
    obtain ⟨t', ht', r', hr', rfl⟩ := mem_language_seq.mp hr
    obtain ⟨t'', ht'', r'', hr'', rfl⟩ := mem_language_seq.mp hr'
    obtain ⟨a, rfl⟩ := mem_dot.mp ht
    obtain ⟨b, rfl⟩ := mem_dot.mp ht'
    obtain ⟨c, rfl⟩ := mem_dot.mp ht''
    obtain ⟨d, rfl⟩ := mem_v4Seg.mp hr''
    exact ⟨⟨a, b, c, d⟩, by simp [Ipv4Address.text]⟩
  · rintro ⟨v, rfl⟩
    have hdot : ∀ n : Fin 256, ofNat n ++ js "." ∈ (cat [v4Seg, lit (js ".")]).language :=
      fun n => mem_dot.mpr ⟨n, rfl⟩
    have hall : v.text = (ofNat v.a ++ js ".") ++ ((ofNat v.b ++ js ".") ++
        ((ofNat v.c ++ js ".") ++ ofNat v.d)) := by simp [Ipv4Address.text]
    rw [hall]
    exact Language.append_mem_mul (hdot v.a) (Language.append_mem_mul (hdot v.b)
      (Language.append_mem_mul (hdot v.c) (mem_v4Seg.mpr ⟨v.d, rfl⟩)))

/-! ## Groups between colons -/

theorem mem_segColon : s ∈ segColon.language ↔ ∃ g : HexGroup, g.text ++ js ":" = s := by
  constructor
  · rintro ⟨t, ht, r, hr, rfl⟩
    obtain ⟨g, rfl⟩ := mem_v6Seg.mp ht
    rw [mem_language_lit.mp hr]
    exact ⟨g, rfl⟩
  · rintro ⟨g, rfl⟩
    exact ⟨_, mem_v6Seg.mpr ⟨g, rfl⟩, _, mem_language_lit.mpr rfl, rfl⟩

theorem mem_colonSeg : s ∈ colonSeg.language ↔ ∃ g : HexGroup, js ":" ++ g.text = s := by
  constructor
  · rintro ⟨t, ht, r, hr, rfl⟩
    obtain ⟨g, rfl⟩ := mem_v6Seg.mp hr
    rw [mem_language_lit.mp ht]
    exact ⟨g, rfl⟩
  · rintro ⟨g, rfl⟩
    exact ⟨_, mem_language_lit.mpr rfl, _, mem_v6Seg.mpr ⟨g, rfl⟩, rfl⟩

theorem mem_times_segColon {p : Pattern} : s ∈ (times segColon p n).language ↔
      ∃ gs : List HexGroup, gs.length = n ∧ ∃ r ∈ p.language,
        gs.flatMap (fun g => g.text ++ js ":") ++ r = s := by
  rw [language_times, Language.mem_mul]
  constructor
  · rintro ⟨t, ht, r, hr, rfl⟩
    obtain ⟨gs, hlength, rfl⟩ := (mem_language_pow (fun s => mem_segColon) n).mp ht
    exact ⟨gs, hlength, r, hr, rfl⟩
  · rintro ⟨gs, hlength, r, hr, rfl⟩
    exact ⟨_, (mem_language_pow (fun s => mem_segColon) n).mpr ⟨gs, hlength, rfl⟩, r, hr, rfl⟩

theorem mem_upTo_colonSeg : s ∈ (upTo true colonSeg n).language ↔
      ∃ gs : List HexGroup, gs.length ≤ n ∧ gs.flatMap (fun g => js ":" ++ g.text) = s := by
  rw [mem_language_upTo]
  constructor
  · rintro ⟨i, hi, hs⟩
    obtain ⟨gs, rfl, hgs⟩ := (mem_language_pow (fun s => mem_colonSeg) i).mp hs
    exact ⟨gs, hi, hgs⟩
  · rintro ⟨gs, hlength, hgs⟩
    exact ⟨gs.length, hlength, (mem_language_pow (fun s => mem_colonSeg) _).mpr ⟨gs, rfl, hgs⟩⟩

theorem colon_join {x : JsString} {texts : List JsString} :
    js ":" ++ join (js ":") (x :: texts) = (x :: texts).flatMap fun t => js ":" ++ t := by
  rw [JsString.join_cons, flatMap_cons, append_assoc]

theorem colon_text {t : Groups} (h : t.texts ≠ []) :
    js ":" ++ t.text = t.texts.flatMap fun text => js ":" ++ text := by
  obtain ⟨x, texts, htexts⟩ := exists_cons_of_ne_nil h
  rw [Groups.text, htexts, colon_join]

theorem flatMap_text (gs : List HexGroup) (f : JsString → JsString) :
    (gs.map HexGroup.text).flatMap f = gs.flatMap fun g => f g.text := by
  rw [flatMap_map]

theorem values_length (t : Groups) :
    t.values.length = t.hex.length + 2 * t.dotted.toList.length := by
  cases hdotted : t.dotted with
  | none => simp [Groups.values, hdotted]
  | some v => simp [Groups.values, hdotted, Ipv4Address.groups]

/-- What may follow the groups before a `::`: its second colon, and groups. -/
theorem mem_shortened : s ∈ (shortened n).language ↔
      ∃ t : Groups, t.values.length ≤ n + 2 ∧ js ":" ++ t.text = s := by
  constructor
  · intro hs
    rcases mem_language_alt.mp hs with h | hs
    · obtain ⟨t, ht, r, hr, rfl⟩ := mem_language_cat.mp h
      obtain ⟨c, hc, q, hq, rfl⟩ := mem_language_cat.mp hr
      obtain ⟨gs, hlength, rfl⟩ := mem_upTo_colonSeg.mp ht
      obtain ⟨v, rfl⟩ := mem_v4Str.mp hq
      rw [mem_language_lit.mp hc]
      refine ⟨⟨gs, some v⟩, ?_, ?_⟩
      · simp [values_length, hlength]
      · rw [colon_text (by simp [Groups.texts])]
        simp [Groups.texts, flatMap_text]
    rcases mem_language_alt.mp hs with h | h
    · obtain ⟨t, ht, r, hr, rfl⟩ := mem_language_cat.mp h
      obtain ⟨g, rfl⟩ := mem_colonSeg.mp ht
      obtain ⟨gs, hlength, rfl⟩ := mem_upTo_colonSeg.mp hr
      refine ⟨⟨g :: gs, none⟩, ?_, ?_⟩
      · simp [values_length]
        omega
      · rw [colon_text (by simp [Groups.texts])]
        simp [Groups.texts, flatMap_text]
    · rw [mem_language_lit.mp h]
      exact ⟨⟨[], none⟩, Nat.zero_le _, rfl⟩
  · rintro ⟨⟨gs, dotted⟩, hsize, rfl⟩
    rw [values_length] at hsize
    cases dotted with
    | some v =>
      refine mem_language_alt.mpr (.inl (mem_language_cat.mpr ⟨gs.flatMap fun g => js ":" ++ g.text,
        mem_upTo_colonSeg.mpr ⟨gs, by simpa using hsize, rfl⟩, js ":" ++ v.text,
        mem_language_cat.mpr ⟨_, mem_language_lit.mpr rfl, _, mem_v4Str.mpr ⟨v, rfl⟩, rfl⟩, ?_⟩))
      rw [colon_text (by simp [Groups.texts])]
      simp [Groups.texts, flatMap_text]
    | none =>
      refine mem_language_alt.mpr (.inr (mem_language_alt.mpr ?_))
      cases gs with
      | nil => exact .inr (mem_language_lit.mpr rfl)
      | cons g gs =>
        refine .inl (mem_language_cat.mpr ⟨_, mem_colonSeg.mpr ⟨g, rfl⟩, _,
          mem_upTo_colonSeg.mpr ⟨gs, by simpa using hsize, rfl⟩, ?_⟩)
        rw [colon_text (by simp [Groups.texts])]
        simp [Groups.texts, flatMap_text]

/-! ## The alternatives -/

theorem heads_join (gs : List HexGroup) (x : JsString) (texts : List JsString) :
    gs.flatMap (fun g => g.text ++ js ":") ++ join (js ":") (x :: texts) =
      join (js ":") (gs.map HexGroup.text ++ x :: texts) := by
  induction gs with
  | nil => rfl
  | cons g gs ih =>
    obtain ⟨y, rest, hrest⟩ : ∃ y rest, gs.map HexGroup.text ++ x :: texts = y :: rest :=
      exists_cons_of_ne_nil (by simp)
    rw [flatMap_cons, append_assoc, ih, map_cons, cons_append, hrest,
      JsString.join_cons _ g.text, append_assoc, colon_join]

theorem shortened_text {gs : List HexGroup} (hne : gs ≠ []) {t : Groups}
    (size : gs.length + t.values.length < 8) :
    (Ipv6Literal.shortened gs t size).text =
      gs.flatMap (fun g => g.text ++ js ":") ++ (js ":" ++ t.text) := by
  rcases eq_nil_or_concat' gs with rfl | ⟨init, g, rfl⟩
  · exact absurd rfl hne
  · have hjoin := heads_join init g.text []
    rw [Ipv6Literal.text, map_append, map_singleton, ← hjoin, flatMap_append]
    simp [join, js]

/-- The literal has a `::` behind this many groups. -/
def ShortenedAfter (n : Nat) (s : JsString) : Prop :=
  ∃ gs t size, gs.length = n ∧ (Ipv6Literal.shortened gs t size).text = s

theorem ShortenedAfter.literal (h : ShortenedAfter n s) : ∃ l : Ipv6Literal, l.text = s := by
  obtain ⟨gs, t, size, -, hs⟩ := h
  exact ⟨_, hs⟩

/-- `(?:${V6_SEG}:){n}`, and a pattern for the second colon and the groups behind it. -/
theorem mem_times_rest {p : Pattern} (hn : n ≠ 0)
    (hp : ∀ r, r ∈ p.language ↔ ∃ t : Groups, n + t.values.length < 8 ∧ js ":" ++ t.text = r) :
    s ∈ (times segColon p n).language ↔ ShortenedAfter n s := by
  rw [mem_times_segColon]
  constructor
  · rintro ⟨gs, hlength, r, hr, rfl⟩
    obtain ⟨t, ht, rfl⟩ := (hp r).mp hr
    have hne : gs ≠ [] := by
      rintro rfl
      exact hn hlength.symm
    exact ⟨gs, t, by rw [hlength]; exact ht, hlength, shortened_text hne _⟩
  · rintro ⟨gs, t, size, hlength, rfl⟩
    have hne : gs ≠ [] := by
      rintro rfl
      exact hn hlength.symm
    exact ⟨gs, hlength, _, (hp _).mpr ⟨t, by rw [← hlength]; exact size, rfl⟩,
      (shortened_text hne size).symm⟩

theorem mem_times_shortened (n m : Nat) (hn : n ≠ 0) (hsize : n + m = 5) :
    s ∈ (times segColon (shortened m) n).language ↔ ShortenedAfter n s := by
  refine mem_times_rest hn fun r => mem_shortened.trans ?_
  constructor
  all_goals
    rintro ⟨t, ht, rfl⟩
    exact ⟨t, by omega, rfl⟩

theorem mem_colon_shortened :
    s ∈ (cat [lit (js ":"), shortened 5]).language ↔ ShortenedAfter 0 s := by
  constructor
  · rintro ⟨t, ht, r, hr, rfl⟩
    obtain ⟨t, ht', rfl⟩ := mem_shortened.mp hr
    rw [mem_language_lit.mp ht]
    exact ⟨[], t, by simp; omega, rfl, rfl⟩
  · rintro ⟨gs, t, size, hlength, rfl⟩
    rw [length_eq_zero_iff] at hlength
    subst hlength
    exact ⟨_, mem_language_lit.mpr rfl, _,
      mem_shortened.mpr ⟨t, by simpa using Nat.le_of_lt_succ size, rfl⟩, rfl⟩

theorem mem_times_alt {a b : Pattern} : s ∈ (times segColon (alt a b) n).language ↔
      s ∈ (times segColon a n).language ∨ s ∈ (times segColon b n).language := by
  rw [language_times, language_times, language_times]
  show s ∈ _ * (a.language + b.language) ↔ _
  rw [mul_add, Language.mem_add]

theorem mem_eight : s ∈ (times segColon v6Seg 7).language ↔
      ∃ gs size, (Ipv6Literal.whole ⟨gs, none⟩ size).text = s := by
  have htext : ∀ (gs : List HexGroup) (g : HexGroup) size,
      (Ipv6Literal.whole ⟨gs ++ [g], none⟩ size).text =
        gs.flatMap (fun g => g.text ++ js ":") ++ g.text := by
    intro gs g size
    have hjoin := heads_join gs g.text []
    simpa [Ipv6Literal.text, Groups.text, Groups.texts, join] using hjoin.symm
  rw [mem_times_segColon]
  constructor
  · rintro ⟨gs, hlength, r, hr, rfl⟩
    obtain ⟨g, rfl⟩ := mem_v6Seg.mp hr
    exact ⟨gs ++ [g], by simp [values_length, hlength], htext gs g _⟩
  · rintro ⟨gs, size, rfl⟩
    have hlength := size
    rw [values_length] at hlength
    rcases eq_nil_or_concat' gs with rfl | ⟨init, g, rfl⟩
    · cases hlength
    · exact ⟨init, by simpa using hlength, _, mem_v6Seg.mpr ⟨g, rfl⟩, (htext init g size).symm⟩

theorem mem_six_dotted : s ∈ (times segColon v4Str 6).language ↔
      ∃ gs v size, (Ipv6Literal.whole ⟨gs, some v⟩ size).text = s := by
  have htext : ∀ (gs : List HexGroup) (v : Ipv4Address) size,
      (Ipv6Literal.whole ⟨gs, some v⟩ size).text =
        gs.flatMap (fun g => g.text ++ js ":") ++ v.text := by
    intro gs v size
    have hjoin := heads_join gs v.text []
    simpa [Ipv6Literal.text, Groups.text, Groups.texts, join] using hjoin.symm
  rw [mem_times_segColon]
  constructor
  · rintro ⟨gs, hlength, r, hr, rfl⟩
    obtain ⟨v, rfl⟩ := mem_v4Str.mp hr
    exact ⟨gs, v, by simp [values_length, hlength], htext gs v _⟩
  · rintro ⟨gs, v, size, rfl⟩
    have hlength := size
    rw [values_length] at hlength
    exact ⟨gs, by simpa using hlength, _, mem_v4Str.mpr ⟨v, rfl⟩, (htext gs v size).symm⟩

theorem mem_times_colon : s ∈ (times segColon (lit (js ":")) 7).language ↔ ShortenedAfter 7 s := by
  refine mem_times_rest (by decide) fun r => mem_language_lit.trans ?_
  constructor
  · rintro rfl
    exact ⟨⟨[], none⟩, by decide, rfl⟩
  · rintro ⟨⟨gs, dotted⟩, ht, rfl⟩
    rw [values_length] at ht
    cases dotted with
    | some v =>
      simp at ht
      omega
    | none =>
      cases gs with
      | nil => rfl
      | cons g gs =>
        simp at ht
        omega

theorem mem_times_one :
    s ∈ (times segColon (alt colonSeg (lit (js ":"))) 6).language ↔ ShortenedAfter 6 s := by
  refine mem_times_rest (by decide) fun r => mem_language_alt.trans ?_
  rw [mem_colonSeg, mem_language_lit]
  constructor
  · rintro (⟨g, rfl⟩ | rfl)
    · exact ⟨⟨[g], none⟩, by simp [values_length], by simp [Groups.text, Groups.texts, join]⟩
    · exact ⟨⟨[], none⟩, by decide, rfl⟩
  · rintro ⟨⟨gs, dotted⟩, ht, rfl⟩
    rw [values_length] at ht
    cases dotted with
    | some v =>
      simp at ht
      omega
    | none =>
      rcases gs with _ | ⟨g, _ | ⟨g', gs⟩⟩
      · exact .inr rfl
      · exact .inl ⟨g, by simp [Groups.text, Groups.texts, join]⟩
      · simp at ht
        omega

theorem mem_v6Str : s ∈ v6Str.language ↔ ∃ l : Ipv6Literal, l.text = s := by
  have hcases : s ∈ v6Str.language ↔
      ((∃ gs size, (Ipv6Literal.whole ⟨gs, none⟩ size).text = s) ∨ ShortenedAfter 7 s) ∨
        ((∃ gs v size, (Ipv6Literal.whole ⟨gs, some v⟩ size).text = s) ∨ ShortenedAfter 6 s) ∨
        ShortenedAfter 5 s ∨ ShortenedAfter 4 s ∨ ShortenedAfter 3 s ∨ ShortenedAfter 2 s ∨
        ShortenedAfter 1 s ∨ ShortenedAfter 0 s := by
    simp only [v6Str, mem_language_alt]
    rw [mem_times_alt, mem_eight, mem_times_colon, mem_times_alt, mem_six_dotted, mem_times_one,
      mem_times_shortened 5 0 (by decide) rfl, mem_times_shortened 4 1 (by decide) rfl,
      mem_times_shortened 3 2 (by decide) rfl, mem_times_shortened 2 3 (by decide) rfl,
      mem_times_shortened 1 4 (by decide) rfl, mem_colon_shortened]
  rw [hcases]
  constructor
  · rintro ((⟨gs, size, h⟩ | h) | (⟨gs, v, size, h⟩ | h) | h | h | h | h | h | h)
    · exact ⟨_, h⟩
    · exact h.literal
    · exact ⟨_, h⟩
    all_goals exact h.literal
  · rintro ⟨l, rfl⟩
    cases l with
    | whole t size =>
      obtain ⟨gs, dotted⟩ := t
      cases dotted with
      | none => exact .inl (.inl ⟨gs, size, rfl⟩)
      | some v => exact .inr (.inl (.inl ⟨gs, v, size, rfl⟩))
    | shortened head rest size =>
      have hafter : ShortenedAfter head.length (Ipv6Literal.shortened head rest size).text :=
        ⟨head, rest, size, rfl, rfl⟩
      have hlength : head.length < 8 := by omega
      generalize head.length = n at hafter hlength
      interval_cases n <;> simp only [hafter, or_true, true_or]

/-! ## Whole hosts -/

theorem test_ipv4Re {host : JsString} :
    test ipv4Re host = true ↔ ∃ v : Ipv4Address, v.text = host :=
  (test_whole rfl).trans mem_v4Str

theorem test_ipv6Re {host : JsString} :
    test ipv6Re host = true ↔ ∃ l : ZonedLiteral, l.text = host := by
  rw [ipv6Re, test_whole (by decide), mem_language_cat]
  constructor
  · rintro ⟨t, ht, r, hr, rfl⟩
    obtain ⟨l, rfl⟩ := mem_v6Str.mp ht
    rcases mem_language_opt.mp hr with hr | rfl
    · obtain ⟨zone, rfl⟩ := mem_zoneStr.mp hr
      exact ⟨⟨l, some zone⟩, rfl⟩
    · exact ⟨⟨l, none⟩, rfl⟩
  · rintro ⟨⟨l, zone⟩, rfl⟩
    refine ⟨l.text, mem_v6Str.mpr ⟨l, rfl⟩, zoneText zone, mem_language_opt.mpr ?_, rfl⟩
    cases zone with
    | none => exact .inr rfl
    | some zone => exact .inl (mem_zoneStr.mpr ⟨zone, rfl⟩)

theorem colon_not_mem_ipv4 (v : Ipv4Address) : unit ':' ∉ v.text := by
  have hdigits : ∀ n : Nat, unit ':' ∉ ofNat n := fun n => not_mem_ofNat (by decide)
  have hdot : unit ':' ∉ js "." := by decide
  simp [Ipv4Address.text, hdigits, hdot]

theorem colon_mem_literal (l : Ipv6Literal) : unit ':' ∈ l.text := by
  cases l with
  | shortened head rest size =>
    refine mem_append_right _ (mem_append_left _ ?_)
    decide
  | whole t size =>
    obtain ⟨gs, dotted⟩ := t
    have hlength := size
    rw [values_length] at hlength
    -- with six groups or more there are two texts at least
    obtain ⟨g, g', rest, rfl⟩ : ∃ g g' rest, gs = g :: g' :: rest := by
      rcases gs with _ | ⟨g, _ | ⟨g', rest⟩⟩
      · cases dotted <;> simp at hlength
      · cases dotted <;> simp at hlength
      · exact ⟨g, g', rest, rfl⟩
    refine mem_append_right _ (mem_append_left _ (mem_append_left _ ?_))
    decide

theorem length_join_le {texts : List JsString} :
    (join (js ":") texts).length ≤ (texts.map fun t => t.length + 1).sum - 1 := by
  cases texts with
  | nil => simp [join]
  | cons x texts =>
    rw [JsString.join_cons, length_append, length_flatMap, map_cons, sum_cons]
    have hcolon : ∀ t : JsString, (js ":" ++ t).length = t.length + 1 := fun _ => rfl
    simp only [hcolon]
    omega

theorem length_hex_le (gs : List HexGroup) :
    ((gs.map HexGroup.text).map fun t => t.length + 1).sum ≤ 5 * gs.length := by
  induction gs with
  | nil => exact Nat.le_refl 0
  | cons g gs ih =>
    have hg := g.length_le
    simp only [map_cons, sum_cons, length_cons]
    omega

theorem length_ofNat_le (n : Fin 256) : (ofNat n.val).length ≤ 3 := by
  rw [length_ofNat]
  exact (Nat.length_toDigits_le_iff (by decide) (by decide)).mpr (by omega)

theorem length_ipv4_le (v : Ipv4Address) : v.text.length ≤ 15 := by
  have ha := length_ofNat_le v.a
  have hb := length_ofNat_le v.b
  have hc := length_ofNat_le v.c
  have hd := length_ofNat_le v.d
  have hdot : (js ".").length = 1 := rfl
  simp only [Ipv4Address.text, length_append]
  omega

theorem length_groups_le (t : Groups) :
    t.text.length ≤ 5 * t.hex.length + 16 * t.dotted.toList.length - 1 := by
  have hjoin : t.text.length ≤ (t.texts.map fun t => t.length + 1).sum - 1 := length_join_le
  have hhex := length_hex_le t.hex
  rw [Groups.texts, map_append, sum_append] at hjoin
  cases hdotted : t.dotted with
  | none =>
    rw [hdotted] at hjoin
    simp only [Option.toList, map_nil, sum_nil] at hjoin ⊢
    omega
  | some v =>
    have hv := length_ipv4_le v
    rw [hdotted] at hjoin
    simp only [Option.toList, map_cons, map_nil, sum_cons, sum_nil, length_cons] at hjoin ⊢
    omega

theorem length_dotted_le (t : Groups) : t.dotted.toList.length ≤ 1 := by
  cases t.dotted <;> simp

theorem length_literal_le (l : Ipv6Literal) : l.text.length ≤ 45 := by
  cases l with
  | whole t size =>
    have hlength := length_groups_le t
    have hdotted := length_dotted_le t
    rw [values_length] at size
    show t.text.length ≤ 45
    omega
  | shortened head rest size =>
    have hhead : (join (js ":") (head.map HexGroup.text)).length ≤ _ := length_join_le
    have hhex := length_hex_le head
    have hlength := length_groups_le rest
    have hdotted := length_dotted_le rest
    have hcolons : (js "::").length = 2 := rfl
    rw [values_length] at size
    rw [Ipv6Literal.text, length_append, length_append, hcolons]
    omega

theorem length_le_max (l : ZonedLiteral) : l.text.length ≤ maxIpLiteralLength := by
  have hliteral := length_literal_le l.literal
  have hzone : (zoneText l.zone).length ≤ 65 := by
    cases l.zone with
    | none => exact Nat.zero_le _
    | some zone =>
      have hpercent : (js "%").length = 1 := rfl
      have hlength := zone.length_le
      rw [zoneText, length_append, hpercent]
      omega
  rw [ZonedLiteral.text, length_append, maxIpLiteralLength]
  omega

theorem ipVersion_eq_six_iff {host : JsString} :
    ipVersion host = 6 ↔ ∃ l : ZonedLiteral, l.text = host := by
  unfold ipVersion
  constructor
  · intro h
    by_contra hnone
    rw [if_neg fun h6 => hnone (test_ipv6Re.mp h6)] at h
    split_ifs at h
    cases h
  · rintro ⟨l, rfl⟩
    have hcolon : unit ':' ∈ l.text := mem_append_left _ (colon_mem_literal l.literal)
    have hlength := length_le_max l
    have h4 : ¬ test ipv4Re l.text = true := by
      intro h4
      obtain ⟨v, hv⟩ := test_ipv4Re.mp h4
      rw [← hv] at hcolon
      exact colon_not_mem_ipv4 v hcolon
    rw [if_neg, if_neg h4, if_pos (test_ipv6Re.mpr ⟨l, rfl⟩)]
    have hne : l.text ≠ [] := ne_nil_of_mem hcolon
    simp [hne, hlength]

/-! ## Numbers -/

variable (g : HexGroup)

theorem HexGroup.hexValue_lt {u : UInt16} (hu : u ∈ g.text) :
    (JsonText.hexValue u).any (· < 16) = true := by
  obtain ⟨n, hn⟩ := Option.isSome_iff_exists.mp (g.digits u hu)
  rw [hn]
  exact decide_eq_true (Network.hexValue_lt hn)

theorem HexGroup.digits_ne_nil : g.text.filterMap JsonText.hexValue ≠ [] := by
  obtain ⟨u, rest, htext⟩ := exists_cons_of_ne_nil g.ne_nil
  obtain ⟨n, hn⟩ := Option.isSome_iff_exists.mp (g.digits u (by simp [htext]))
  rw [htext, filterMap_cons, hn]
  exact cons_ne_nil _ _

theorem parseInt_hex : parseInt 16 g.text = some g.value := by
  have hall : (g.text.takeWhile fun u => (JsonText.hexValue u).any (· < 16)) = g.text :=
    takeWhile_eq_self_iff.mpr fun u hu => g.hexValue_lt hu
  rw [parseInt]
  simp only [hall]
  rw [if_neg g.digits_ne_nil]
  rfl

theorem parseInt_ofNat (n : Fin 256) : parseInt 10 (ofNat n.val) = some n.val := by
  have hall : ∀ n : Fin 256, parseInt 10 (ofNat n.val) = some n.val := by decide +kernel
  exact hall n

theorem filterMap_hexDigit {digits : List Nat} (h : ∀ d ∈ digits, d < 16) :
    (digits.map JsValue.hexDigit).filterMap JsonText.hexValue = digits := by
  induction digits with
  | nil => rfl
  | cons d digits ih =>
    rw [map_cons, filterMap_cons, JsonText.hexValue_hexDigit (h d mem_cons_self)]
    rw [ih fun x hx => h x (mem_cons_of_mem d hx)]

theorem foldl_reverse_digits (digits : List Nat) :
    digits.reverse.foldl (fun n d => 16 * n + d) 0 = Nat.ofDigits 16 digits := by
  rw [foldl_reverse, Nat.ofDigits_eq_foldr]
  congr 1
  funext d n
  exact Nat.add_comm _ _

/-- `n.toString(16)` of a number of 16 bits. -/
def HexGroup.ofNumber (n : Nat) (h : n < 65536) : HexGroup where
  text := toString16 n
  ne_nil := by
    unfold toString16
    split
    · decide
    · rename_i hn
      simp [Nat.digits_ne_nil_iff_ne_zero.mpr hn]
  length_le := by
    unfold toString16
    split
    · decide
    · rw [length_map, length_reverse]
      exact (Nat.digits_length_le_iff (by decide) n).mpr h
  digits := by
    unfold toString16
    split
    · exact all_eq_true.mp (by decide)
    · intro u hu
      obtain ⟨d, hd, rfl⟩ := mem_map.mp hu
      rw [JsonText.hexValue_hexDigit (Nat.digits_lt_base (by decide) (mem_reverse.mp hd))]
      rfl

theorem HexGroup.value_ofNumber (n : Nat) (h : n < 65536) : (ofNumber n h).value = n := by
  show ((toString16 n).filterMap JsonText.hexValue).foldl (fun n d => 16 * n + d) 0 = n
  unfold toString16
  split
  · rename_i hn
    rw [hn]
    rfl
  · rw [filterMap_hexDigit, foldl_reverse_digits, Nat.ofDigits_digits]
    intro d hd
    exact Nat.digits_lt_base (by decide) (mem_reverse.mp hd)

theorem shiftLeft_or (high low : Fin 256) : high.val <<< 8 ||| low.val = 256 * high + low := by
  rw [← Nat.shiftLeft_add_eq_or_of_lt (by exact low.isLt), Nat.shiftLeft_eq, Nat.mul_comm]

/-! ## Units of a literal -/

theorem mem_join {sep : JsString} {texts : List JsString} {u : UInt16} (h : u ∈ join sep texts) :
    u ∈ sep ∨ ∃ t ∈ texts, u ∈ t := by
  cases texts with
  | nil => cases h
  | cons x texts =>
    rw [JsString.join_cons] at h
    rcases mem_append.mp h with h | h
    · exact .inr ⟨x, mem_cons_self, h⟩
    · obtain ⟨t, ht, hu⟩ := mem_flatMap.mp h
      rcases mem_append.mp hu with hu | hu
      · exact .inl hu
      · exact .inr ⟨t, mem_cons_of_mem x ht, hu⟩

theorem HexGroup.not_mem {u : UInt16} (hhex : JsonText.hexValue u = none) : u ∉ g.text := by
  intro hu
  have hdigit := g.digits u hu
  rw [hhex] at hdigit
  cases hdigit

theorem not_mem_ofNat_of_hexValue {u : UInt16} (hhex : JsonText.hexValue u = none) (n : Nat) :
    u ∉ ofNat n := by
  refine not_mem_ofNat (Bool.eq_false_iff.mpr fun hdecimal => ?_)
  rw [JsonText.hexValue, if_pos (by exact hdecimal)] at hhex
  cases hhex

theorem not_mem_ipv4 (v : Ipv4Address) {u : UInt16} (hhex : JsonText.hexValue u = none)
    (hdot : u ∉ js ".") : u ∉ v.text := by
  simp [Ipv4Address.text, not_mem_ofNat_of_hexValue hhex, hdot]

theorem not_mem_groups (t : Groups) {u : UInt16} (hhex : JsonText.hexValue u = none)
    (hcolon : u ∉ js ":") (hdot : t.dotted = none ∨ u ∉ js ".") : u ∉ t.text := by
  intro hu
  rcases mem_join hu with hu | ⟨x, hx, hu⟩
  · exact hcolon hu
  · rcases mem_append.mp hx with hx | hx
    · obtain ⟨g, -, rfl⟩ := mem_map.mp hx
      exact g.not_mem hhex hu
    · obtain ⟨v, hv, rfl⟩ := mem_map.mp hx
      rcases hdot with hdot | hdot
      · rw [hdot] at hv
        cases hv
      · exact not_mem_ipv4 v hhex hdot hu

def Ipv6Literal.tail : Ipv6Literal → Groups
  | .whole groups _ => groups
  | .shortened _ rest _ => rest

def Ipv6Literal.before : Ipv6Literal → JsString
  | .whole _ _ => []
  | .shortened head _ _ => join (js ":") (head.map HexGroup.text) ++ js "::"

variable (l : Ipv6Literal)

theorem text_eq_before : l.text = l.before ++ l.tail.text := by
  cases l with
  | whole groups size => rfl
  | shortened head rest size => exact (append_assoc _ _ _).symm

theorem not_mem_literal {u : UInt16} (hhex : JsonText.hexValue u = none) (hcolon : u ∉ js ":")
    (hdot : l.tail.dotted = none ∨ u ∉ js ".") : u ∉ l.text := by
  rw [text_eq_before, mem_append, not_or]
  refine ⟨?_, not_mem_groups l.tail hhex hcolon hdot⟩
  cases l with
  | whole groups size => exact not_mem_nil
  | shortened head rest size =>
    intro hu
    rcases mem_append.mp hu with hu | hu
    · rcases mem_join hu with hu | ⟨x, hx, hu⟩
      · exact hcolon hu
      · obtain ⟨g, -, rfl⟩ := mem_map.mp hx
        exact g.not_mem hhex hu
    · rw [show js "::" = js ":" ++ js ":" from rfl, mem_append, or_self] at hu
      exact hcolon hu

/-! ## The dotted tail -/

def Ipv4Address.hexGroups (v : Ipv4Address) : List HexGroup :=
  [HexGroup.ofNumber (256 * v.a + v.b) (by omega), HexGroup.ofNumber (256 * v.c + v.d) (by omega)]

def Groups.undotted (t : Groups) : Groups where
  hex := t.hex ++ t.dotted.toList.flatMap Ipv4Address.hexGroups
  dotted := none

theorem values_undotted (t : Groups) : t.undotted.values = t.values := by
  cases hdotted : t.dotted with
  | none => simp [Groups.values, Groups.undotted, hdotted]
  | some v =>
    simp [Groups.values, Groups.undotted, hdotted, Ipv4Address.hexGroups, Ipv4Address.groups,
      HexGroup.value_ofNumber]

def Ipv6Literal.undotted : Ipv6Literal → Ipv6Literal
  | .whole groups size => .whole groups.undotted (by rw [values_undotted, size])
  | .shortened head rest size => .shortened head rest.undotted (by rw [values_undotted]; exact size)

theorem groups_undotted : l.undotted.groups = l.groups := by
  cases l with
  | whole groups size => exact values_undotted groups
  | shortened head rest size =>
    simp [Ipv6Literal.undotted, Ipv6Literal.groups, values_undotted]

theorem splitOn_ipv4 (v : Ipv4Address) :
    v.text.splitOn (unit '.') = [ofNat v.a, ofNat v.b, ofNat v.c, ofNat v.d] := by
  have hdot : ∀ n : Nat, unit '.' ∉ ofNat n := not_mem_ofNat_of_hexValue (by decide)
  have htext : v.text = ofNat v.a ++ unit '.' :: (ofNat v.b ++ unit '.' ::
      (ofNat v.c ++ unit '.' :: ofNat v.d)) := by
    simp [Ipv4Address.text, js, utf16, unit]
  rw [htext, splitOn_append_cons_self_of_not_mem (hdot _),
    splitOn_append_cons_self_of_not_mem (hdot _),
    splitOn_append_cons_self_of_not_mem (hdot _), splitOn_eq_singleton (hdot _)]

theorem includes_dot {s : JsString} : includes s (js ".") = true ↔ unit '.' ∈ s := by
  rw [includes_iff]
  exact singleton_infix_iff _ _

theorem foldDottedTail_of_not_mem {text : JsString} (h : unit '.' ∉ text) :
    foldDottedTail text = text := by
  unfold foldDottedTail
  have hnone : ∀ tail : JsString, (unit '.' ∈ tail → unit '.' ∈ text) →
      ¬ includes tail (js ".") = true := fun tail htail hdot => h (htail (includes_dot.mp hdot))
  cases hcut : Separators.cutLast (unit ':') text with
  | none =>
    simp only
    rw [if_neg (hnone text id)]
  | some cut =>
    obtain ⟨before, tail⟩ := cut
    have hmem : unit '.' ∈ tail → unit '.' ∈ text := fun hdot => by
      rw [Separators.cutLast_eq_some hcut]
      exact mem_append_right _ (mem_append_right _ hdot)
    simp only
    rw [if_neg (hnone tail hmem)]

theorem foldDottedTail_ipv4 (before : JsString) (v : Ipv4Address) :
    foldDottedTail (before ++ (js ":" ++ v.text)) =
      before ++ js ":" ++ toString16 (256 * v.a + v.b) ++ js ":" ++
        toString16 (256 * v.c + v.d) := by
  have hcut : Separators.cutLast (unit ':') (before ++ (js ":" ++ v.text)) =
      some (before, v.text) :=
    Separators.cutLast_append (colon_not_mem_ipv4 v)
  have hdot : includes v.text (js ".") = true :=
    includes_dot.mpr (by simp [Ipv4Address.text, js, utf16, unit])
  unfold foldDottedTail
  rw [hcut]
  simp only
  rw [if_pos hdot, splitOn_ipv4]
  simp [parseInt_ofNat, shiftLeft_or]

theorem colon_before_tail {v : Ipv4Address} (hdotted : l.tail.dotted = some v) :
    ∃ before, l.before ++ l.tail.hex.flatMap (fun g => g.text ++ js ":") = before ++ js ":" := by
  rcases eq_nil_or_concat' l.tail.hex with hnil | ⟨init, g, hconcat⟩
  · cases l with
    | whole groups size =>
      rw [values_length, show groups.hex = [] from hnil, show groups.dotted = some v from hdotted]
        at size
      cases size
    | shortened head rest size =>
      refine ⟨join (js ":") (head.map HexGroup.text) ++ js ":", ?_⟩
      rw [hnil]
      simp [Ipv6Literal.before, js]
  · refine ⟨l.before ++ (init.flatMap (fun g => g.text ++ js ":") ++ g.text), ?_⟩
    rw [hconcat, flatMap_append]
    simp

theorem undotted_text : l.undotted.text = l.before ++ l.tail.undotted.text := by
  cases l with
  | whole groups size => rfl
  | shortened head rest size => exact (append_assoc _ _ _).symm

theorem foldDottedTail_text : foldDottedTail l.text = l.undotted.text := by
  cases hdotted : l.tail.dotted with
  | none =>
    have hsame : l.tail.undotted = l.tail := by
      rcases htail : l.tail with ⟨hex, dotted⟩
      rw [htail] at hdotted
      simp only at hdotted
      simp [Groups.undotted, hdotted]
    rw [foldDottedTail_of_not_mem (not_mem_literal l (by decide) (by decide) (.inl hdotted)),
      undotted_text, hsame, text_eq_before]
  | some v =>
    obtain ⟨before, hbefore⟩ := colon_before_tail l hdotted
    have htail : l.tail.text = l.tail.hex.flatMap (fun g => g.text ++ js ":") ++ v.text := by
      have hjoin := heads_join l.tail.hex v.text []
      simp only [Groups.text, Groups.texts, hdotted, Option.toList, map_cons, map_nil, ← hjoin]
      simp [join]
    have hundotted : l.tail.undotted.text = l.tail.hex.flatMap (fun g => g.text ++ js ":") ++
        (toString16 (256 * v.a + v.b) ++ js ":" ++ toString16 (256 * v.c + v.d)) := by
      have hjoin := heads_join l.tail.hex (toString16 (256 * v.a + v.b))
        [toString16 (256 * v.c + v.d)]
      have htexts : l.tail.undotted.texts = l.tail.hex.map HexGroup.text ++
          [toString16 (256 * v.a + v.b), toString16 (256 * v.c + v.d)] := by
        simp [Groups.undotted, Groups.texts, hdotted, Ipv4Address.hexGroups, HexGroup.ofNumber]
      rw [Groups.text, htexts, ← hjoin, JsString.join_cons]
      simp
    rw [text_eq_before, undotted_text, htail, hundotted, ← append_assoc, hbefore,
      append_assoc, foldDottedTail_ipv4, ← append_assoc, hbefore]
    simp only [append_assoc]

/-! ## The groups -/

variable (gs : List HexGroup)

theorem splitGroups_join :
    splitGroups (join (js ":") (gs.map HexGroup.text)) = gs.map HexGroup.text := by
  unfold splitGroups
  cases gs with
  | nil => rfl
  | cons g gs =>
    have hne : join (js ":") ((g :: gs).map HexGroup.text) ≠ [] := by
      rw [map_cons, JsString.join_cons]
      simp [g.ne_nil]
    rw [if_neg hne]
    refine splitOn_intercalate (unit ':') ?_ (by simp)
    intro t ht
    obtain ⟨x, -, rfl⟩ := mem_map.mp ht
    exact x.not_mem (by decide)

theorem sparse_hex : TextSplit.Sparse (unit ':') (join (js ":") (gs.map HexGroup.text)) := by
  refine (TextSplit.sparse_join fun t ht => ?_).1
  obtain ⟨g, -, rfl⟩ := mem_map.mp ht
  exact ⟨g.ne_nil, g.not_mem (by decide)⟩

theorem mapM_parseInt :
    (gs.map HexGroup.text).mapM (parseInt 16) = some (gs.map HexGroup.value) := by
  induction gs with
  | nil => rfl
  | cons g gs ih =>
    rw [map_cons, mapM_cons, parseInt_hex, ih]
    rfl

theorem mapM_parseInt_zeros (n : Nat) :
    (List.replicate n (js "0")).mapM (parseInt 16) = some (List.replicate n 0) := by
  induction n with
  | zero => rfl
  | succ n ih =>
    rw [replicate_succ, mapM_cons, ih, show parseInt 16 (js "0") = some 0 by decide]
    rfl

/-- The texts of the groups of a literal without a dotted tail. -/
def Ipv6Literal.groupTexts : Ipv6Literal → List JsString
  | .whole groups _ => groups.hex.map HexGroup.text
  | .shortened head rest _ =>
      head.map HexGroup.text ++ List.replicate (8 - head.length - rest.hex.length) (js "0") ++
        rest.hex.map HexGroup.text

theorem mapM_groupTexts (hdotted : l.tail.dotted = none) :
    l.groupTexts.mapM (parseInt 16) = some l.groups := by
  cases l with
  | whole groups size =>
    obtain ⟨hex, dotted⟩ := groups
    subst hdotted
    rw [Ipv6Literal.groupTexts, mapM_parseInt]
    simp [Ipv6Literal.groups, Groups.values]
  | shortened head rest size =>
    obtain ⟨hex, dotted⟩ := rest
    subst hdotted
    rw [Ipv6Literal.groupTexts, mapM_append, mapM_append, mapM_parseInt, mapM_parseInt,
      mapM_parseInt_zeros]
    simp [Ipv6Literal.groups, Groups.values]

theorem expandGroups_text (hdotted : l.tail.dotted = none) :
    expandGroups l.text = some l.groupTexts := by
  cases l with
  | whole groups size =>
    obtain ⟨hex, dotted⟩ := groups
    subst hdotted
    have htext : (Groups.mk hex none).text = join (js ":") (hex.map HexGroup.text) := by
      simp [Groups.text, Groups.texts]
    have hsplit : TextSplit.split (js "::") (Groups.mk hex none).text =
        [(Groups.mk hex none).text] := by
      rw [htext]
      exact (sparse_hex hex).split
    rw [values_length] at size
    rw [expandGroups, Ipv6Literal.text, hsplit]
    simp only [htext, splitGroups_join, Ipv6Literal.groupTexts]
    rw [if_pos (by simpa using size)]
  | shortened head rest size =>
    obtain ⟨hex, dotted⟩ := rest
    subst hdotted
    have htext : (Groups.mk hex none).text = join (js ":") (hex.map HexGroup.text) := by
      simp [Groups.text, Groups.texts]
    have hsplit : TextSplit.split (js "::")
        (join (js ":") (head.map HexGroup.text) ++ (js "::" ++ (Groups.mk hex none).text)) =
        [join (js ":") (head.map HexGroup.text), (Groups.mk hex none).text] := by
      rw [htext]
      exact ((sparse_hex head).split_append).trans (by rw [(sparse_hex hex).split])
    rw [values_length] at size
    rw [expandGroups, Ipv6Literal.text, hsplit]
    simp only [htext, splitGroups_join, Ipv6Literal.groupTexts, length_map]
    rw [if_pos (by simp at size; omega)]

theorem head_splitOn_percent (l : ZonedLiteral) :
    ((l.text.splitOn (unit '%')).head?).getD [] = l.literal.text := by
  have hpercent : unit '%' ∉ l.literal.text :=
    not_mem_literal _ (by decide) (by decide) (.inr (by decide))
  obtain ⟨literal, zone⟩ := l
  cases zone with
  | none =>
    rw [ZonedLiteral.text, zoneText, append_nil, splitOn_eq_singleton hpercent]
    rfl
  | some zone =>
    have htext : ZonedLiteral.text ⟨literal, some zone⟩ = literal.text ++ unit '%' :: zone.text :=
      rfl
    rw [htext, splitOn_append_cons_self_of_not_mem hpercent]
    rfl

theorem ipv6Hextets_text (l : ZonedLiteral) : ipv6Hextets l.text = some l.literal.groups := by
  have hversion : ipVersion l.text = 6 := ipVersion_eq_six_iff.mpr ⟨l, rfl⟩
  have hdotted : l.literal.undotted.tail.dotted = none := by
    cases l.literal with
    | whole groups size => rfl
    | shortened head rest size => rfl
  have hgroups : (expandGroups l.literal.undotted.text).bind
      (fun groups => groups.mapM (parseInt 16)) = some l.literal.groups := by
    rw [expandGroups_text _ hdotted, Option.bind_some, mapM_groupTexts _ hdotted, groups_undotted]
  have hbound : (l.literal.groups.all (· ≤ 0xffff)) = true :=
    all_eq_true.mpr fun g hg => decide_eq_true (Nat.le_of_lt_succ (l.literal.groups_lt g hg))
  unfold ipv6Hextets
  rw [if_neg (by simp [hversion]), head_splitOn_percent, foldDottedTail_text]
  simp only
  rw [hgroups]
  simp only
  rw [if_pos (by simp [l.literal.groups_length, hbound])]

end RedRouter.Network
