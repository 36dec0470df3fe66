import RedRouter.Network.LiteralDecode

/-!
# All spellings of an address

A `Spelling` is a literal that `ipVersion` accepts, in brackets or without, as it comes
to `isPrivateHost` and `isCloudMetadataHost`.  Their verdicts are about the address
(`classifiedSoundly_iff`), but for zone ids of dots: `normalizeHost` takes them for
the dot at the end of a host name, and what is left is no literal.
-/

namespace RedRouter.Network

open List JsString Regex AddressBlocks

/-! ## Literals as hosts

`normalizeHost` takes an IPv6 literal for the name of a host: it writes it in lower
case, and takes a dot from its end.  The groups stay as they are (`groups_lower`), but
the dot may be one of the zone id.  A `HostText` is a literal with what is left of
its zone id.  Nothing may be left, and then `ipv6Hextets` does not read the
literal any more (`ipv6Hextets_host`).
-/

/-! ## Lower case -/

theorem toNat_asciiLower (u : UInt16) :
    (asciiLower u).toNat = if 65 ≤ u.toNat ∧ u.toNat ≤ 90 then u.toNat + 32 else u.toNat := by
  have hA : unit 'A' = 65 := rfl
  have hZ : unit 'Z' = 90 := rfl
  unfold asciiLower
  simp only [hA, hZ, Bool.and_eq_true, decide_eq_true_eq, UInt16.le_iff_toNat_le,
    UInt16.reduceToNat]
  split
  · simp only [UInt16.toNat_add, UInt16.reduceToNat]
    omega
  · rfl

theorem hexValue_asciiLower (u : UInt16) :
    JsonText.hexValue (asciiLower u) = JsonText.hexValue u := by
  have hlower := toNat_asciiLower u
  unfold JsonText.hexValue JsonText.isDigit
  simp only [Bool.and_eq_true, decide_eq_true_eq, UInt16.le_iff_toNat_le, UInt16.reduceToNat]
  split_ifs <;> grind

theorem isZoneUnit_iff (u : UInt16) : isZoneUnit u = true ↔
    (48 ≤ u.toNat ∧ u.toNat ≤ 57) ∨ (97 ≤ u.toNat ∧ u.toNat ≤ 122) ∨
      (65 ≤ u.toNat ∧ u.toNat ≤ 90) ∨ u.toNat = 45 ∨ u.toNat = 46 ∨ u.toNat = 58 := by
  have heq : ∀ c : Char, (u = unit c ↔ u.toNat = (unit c).toNat) := fun c =>
    UInt16.toNat_inj.symm
  simp only [isZoneUnit, Bool.or_eq_true, Bool.and_eq_true, decide_eq_true_eq, beq_iff_eq, heq,
    or_assoc]
  rfl

variable {u : UInt16}

theorem isZoneUnit_asciiLower (h : isZoneUnit u = true) : isZoneUnit (asciiLower u) = true := by
  rw [isZoneUnit_iff] at h ⊢
  rw [toNat_asciiLower]
  split_ifs <;> omega

theorem isZoneUnit_of_hexValue (h : (JsonText.hexValue u).isSome = true) : isZoneUnit u = true := by
  rw [← isHex_iff] at h
  simp only [Bool.or_eq_true, Bool.and_eq_true, decide_eq_true_eq, UInt16.le_iff_toNat_le] at h
  have h0 : (unit '0').toNat = 48 := rfl
  have h9 : (unit '9').toNat = 57 := rfl
  have ha : (unit 'a').toNat = 97 := rfl
  have hf : (unit 'f').toNat = 102 := rfl
  have hA : (unit 'A').toNat = 65 := rfl
  have hF : (unit 'F').toNat = 70 := rfl
  rw [isZoneUnit_iff]
  omega

theorem map_join (f : UInt16 → UInt16) (sep : JsString) (texts : List JsString) :
    (join sep texts).map f = join (sep.map f) (texts.map fun t => t.map f) := by
  cases texts with
  | nil => rfl
  | cons x texts =>
    rw [map_cons, JsString.join_cons, JsString.join_cons, map_append, map_flatMap, flatMap_map]
    simp only [map_append]

def HexGroup.lower (g : HexGroup) : HexGroup where
  text := g.text.map asciiLower
  ne_nil := by simp [g.ne_nil]
  length_le := by
    rw [length_map]
    exact g.length_le
  digits := by
    intro u hu
    obtain ⟨v, hv, rfl⟩ := mem_map.mp hu
    rw [hexValue_asciiLower]
    exact g.digits v hv

theorem HexGroup.value_lower (g : HexGroup) : g.lower.value = g.value := by
  have hdigits : (g.text.map asciiLower).filterMap JsonText.hexValue =
      g.text.filterMap JsonText.hexValue := by
    rw [filterMap_map]
    congr 1
    funext u
    exact hexValue_asciiLower u
  show ((g.text.map asciiLower).filterMap JsonText.hexValue).foldl _ 0 = _
  rw [hdigits]
  rfl

theorem Ipv4Address.map_asciiLower (v : Ipv4Address) : v.text.map asciiLower = v.text := by
  have hdigits : ∀ n : Fin 256, (ofNat n.val).map asciiLower = ofNat n.val := by decide +kernel
  have hdot : (js ".").map asciiLower = js "." := by decide
  simp [Ipv4Address.text, hdigits, hdot]

def Groups.lower (t : Groups) : Groups := { t with hex := t.hex.map HexGroup.lower }

theorem Groups.values_lower (t : Groups) : t.lower.values = t.values := by
  have hvalue : HexGroup.value ∘ HexGroup.lower = HexGroup.value := funext HexGroup.value_lower
  rw [Groups.values, Groups.lower, map_map, hvalue]
  rfl

theorem Groups.text_lower (t : Groups) : t.lower.text = t.text.map asciiLower := by
  have hcolon : (js ":").map asciiLower = js ":" := by decide
  have hdotted : ∀ v : Ipv4Address, (fun t : JsString => t.map asciiLower) v.text = v.text :=
    Ipv4Address.map_asciiLower
  rw [Groups.text, Groups.text, map_join, hcolon, Groups.texts, Groups.texts, map_append,
    map_map, map_map]
  congr 2
  · rw [Groups.lower, map_map]
    rfl
  · exact map_congr_left fun v _ => (hdotted v).symm

variable (l : Ipv6Literal)

namespace Ipv6Literal

def lower : Ipv6Literal → Ipv6Literal
  | .whole groups size => .whole groups.lower (by rw [Groups.values_lower, size])
  | .shortened head rest size =>
      .shortened (head.map HexGroup.lower) rest.lower
        (by rw [Groups.values_lower, length_map]; exact size)

theorem groups_lower : l.lower.groups = l.groups := by
  have hvalue : HexGroup.value ∘ HexGroup.lower = HexGroup.value := funext HexGroup.value_lower
  cases l with
  | whole groups size => exact groups.values_lower
  | shortened head rest size =>
    simp [lower, groups, Groups.values_lower, hvalue]

theorem text_lower : l.lower.text = l.text.map asciiLower := by
  have hcolon : (js ":").map asciiLower = js ":" := by decide
  have hcolons : (js "::").map asciiLower = js "::" := by decide
  cases l with
  | whole groups size => exact groups.text_lower
  | shortened head rest size =>
    rw [lower, text, text, map_append, map_append, map_join, hcolon, hcolons,
      Groups.text_lower, map_map, map_map]
    rfl

end Ipv6Literal

/-! ## What is left of a zone id -/

structure ZonePart where
  text : JsString
  length_le : text.length ≤ 64
  units : ∀ u ∈ text, isZoneUnit u = true

namespace ZonePart

def lower (z : ZonePart) : ZonePart where
  text := z.text.map asciiLower
  length_le := by
    rw [length_map]
    exact z.length_le
  units := by
    intro u hu
    obtain ⟨v, hv, rfl⟩ := mem_map.mp hu
    exact isZoneUnit_asciiLower (z.units v hv)

def withoutDot (z : ZonePart) : ZonePart where
  text := if endsWith z.text (js ".") then z.text.dropLast else z.text
  length_le := by
    have hlength := z.length_le
    split
    · rw [length_dropLast]
      omega
    · exact hlength
  units := by
    intro u hu
    split at hu
    · exact z.units u (mem_of_mem_dropLast hu)
    · exact z.units u hu

end ZonePart

structure HostText where
  literal : Ipv6Literal
  zone : Option ZonePart

namespace HostText

def zoneText (h : HostText) : JsString :=
  match h.zone with
  | none => []
  | some zone => js "%" ++ zone.text

def text (h : HostText) : JsString := h.literal.text ++ h.zoneText

def lower (h : HostText) : HostText where
  literal := h.literal.lower
  zone := h.zone.map ZonePart.lower

def withoutDot (h : HostText) : HostText := { h with zone := h.zone.map ZonePart.withoutDot }

theorem text_none : text ⟨l, none⟩ = l.text := append_nil _

theorem text_some (z : ZonePart) : text ⟨l, some z⟩ = l.text ++ (js "%" ++ z.text) := rfl

/-- The zone id is this many dots. -/
def Dots (h : HostText) (n : Nat) : Prop :=
  h.zone.map ZonePart.text = some (List.replicate n (unit '.'))

end HostText

def Zone.part (z : Zone) : ZonePart where
  text := z.text
  length_le := z.length_le
  units := z.units

def ZonedLiteral.host (l : ZonedLiteral) : HostText where
  literal := l.literal
  zone := l.zone.map Zone.part

theorem host_text (l : ZonedLiteral) : l.host.text = l.text := by
  obtain ⟨literal, zone⟩ := l
  cases zone <;> rfl

/-! ## The text of a host -/

theorem isZoneUnit_of_mem_literal : ∀ u ∈ l.text, isZoneUnit u = true := by
  intro u hu
  by_contra hunit
  have hhex : JsonText.hexValue u = none := by
    rw [← Option.not_isSome_iff_eq_none]
    exact fun hhex => hunit (isZoneUnit_of_hexValue hhex)
  have hne : ∀ c : Char, isZoneUnit (unit c) = true → u ∉ [unit c] := by
    intro c hc hmem
    rw [mem_singleton.mp hmem] at hunit
    exact hunit hc
  exact not_mem_literal l hhex (hne ':' (by decide)) (.inr (hne '.' (by decide))) hu

variable {h : HostText}

theorem HostText.mem_text (hu : u ∈ h.text) : isZoneUnit u = true ∨ u = unit '%' := by
  obtain ⟨literal, zone⟩ := h
  rcases mem_append.mp hu with hu | hu
  · exact .inl (isZoneUnit_of_mem_literal literal u hu)
  · cases zone with
    | none => cases hu
    | some z =>
      rcases mem_append.mp hu with hu | hu
      · exact .inr (mem_singleton.mp hu)
      · exact .inl (z.units u hu)

theorem HostText.not_mem_text (h : HostText) (hunit : isZoneUnit u = false)
    (hpercent : u ≠ unit '%') : u ∉ h.text := by
  intro hu
  rcases HostText.mem_text hu with hzone | hzone
  · rw [hunit] at hzone
    cases hzone
  · exact hpercent hzone

theorem HostText.text_lower (h : HostText) : h.lower.text = h.text.map asciiLower := by
  obtain ⟨literal, zone⟩ := h
  have hpercent : (js "%").map asciiLower = js "%" := by decide
  rw [text, text, map_append, lower, Ipv6Literal.text_lower]
  congr 1
  cases zone with
  | none => rfl
  | some z =>
    rfl

variable {s : JsString}

theorem endsWith_dot_iff : endsWith s (js ".") = true ↔ s.getLast? = some (unit '.') := by
  rw [endsWith, isSuffixOf_iff_suffix, getLast?_eq_some_iff]
  exact ⟨fun ⟨init, h⟩ => ⟨init, h.symm⟩, fun ⟨init, h⟩ => ⟨init, h.symm⟩⟩

theorem getLast?_join {texts : List JsString} (hne : texts ≠ [])
    (h : ∀ t ∈ texts, t ≠ [] ∧ t.getLast? ≠ some (unit '.')) :
    (join (js ":") texts).getLast? ≠ some (unit '.') := by
  rcases eq_nil_or_concat' texts with rfl | ⟨init, x, rfl⟩
  · exact absurd rfl hne
  · obtain ⟨hx, hlast⟩ := h x (by simp)
    cases init with
    | nil =>
      rw [nil_append, JsString.join_cons, flatMap_nil, append_nil]
      exact hlast
    | cons y init =>
      rw [cons_append, JsString.join_cons, flatMap_append, flatMap_singleton,
        ← append_assoc, ← append_assoc, getLast?_append_of_ne_nil _ hx]
      exact hlast

theorem getLast?_ne_of_not_mem (h : u ∉ s) : s.getLast? ≠ some u :=
  fun hlast => h (mem_of_getLast? hlast)

theorem getLast?_ipv4 (v : Ipv4Address) : v.text ≠ [] ∧ v.text.getLast? ≠ some (unit '.') := by
  have hne : ∀ n : Fin 256, ofNat n.val ≠ [] := by decide +kernel
  have hdot : unit '.' ∉ ofNat v.d.val := not_mem_ofNat_of_hexValue (by decide) _
  constructor
  · simp [Ipv4Address.text, hne v.a]
  · rw [Ipv4Address.text, getLast?_append_of_ne_nil _ (hne v.d)]
    exact getLast?_ne_of_not_mem hdot

theorem getLast?_texts (t : Groups) : ∀ x ∈ t.texts, x ≠ [] ∧ x.getLast? ≠ some (unit '.') := by
  intro x hx
  rcases mem_append.mp hx with hx | hx
  · obtain ⟨g, -, rfl⟩ := mem_map.mp hx
    exact ⟨g.ne_nil, getLast?_ne_of_not_mem (g.not_mem (by decide))⟩
  · obtain ⟨v, -, rfl⟩ := mem_map.mp hx
    exact getLast?_ipv4 v

theorem getLast?_literal : l.text.getLast? ≠ some (unit '.') := by
  rw [text_eq_before]
  rcases htexts : l.tail.texts with _ | ⟨x, texts⟩
  · have htext : l.tail.text = [] := by
      rw [Groups.text, htexts]
      rfl
    rw [htext, append_nil]
    cases l with
    | whole groups size => simp [Ipv6Literal.before]
    | shortened head rest size =>
      rw [Ipv6Literal.before, getLast?_append_of_ne_nil _ (by decide)]
      decide
  · have hends := getLast?_texts l.tail
    rw [htexts] at hends
    have htext : l.tail.text ≠ [] := by
      rw [Groups.text, htexts, JsString.join_cons]
      simp [(hends x mem_cons_self).1]
    rw [getLast?_append_of_ne_nil _ htext, Groups.text, htexts]
    exact getLast?_join (cons_ne_nil x texts) hends

theorem HostText.text_ne_nil (h : HostText) : h.text ≠ [] :=
  ne_nil_of_mem (mem_append_left _ (colon_mem_literal h.literal))

/-! ## Normalization -/

theorem trim_eq_self (h : ∀ u ∈ s, isSpace u = false) : trim s = s := by
  have hdrop : ∀ t : JsString, (∀ u ∈ t, isSpace u = false) → t.dropWhile isSpace = t := by
    intro t ht
    cases t with
    | nil => rfl
    | cons u t => exact dropWhile_cons_of_neg (by simp [ht u mem_cons_self])
  rw [trim, trimStart, hdrop s h, hdrop s.reverse (by simpa using h), reverse_reverse]

theorem ascii_of_host (h : isZoneUnit u = true ∨ u = unit '%' ∨ u = unit '[' ∨ u = unit ']') :
    u < 128 ∧ isSpace u = false := by
  rcases h with h | rfl | rfl | rfl
  · rw [isZoneUnit_iff] at h
    constructor
    · simp only [UInt16.lt_iff_toNat_lt, UInt16.reduceToNat]
      omega
    · rw [← Bool.not_eq_true]
      simp only [isSpace, Bool.or_eq_true, Bool.and_eq_true, decide_eq_true_eq, beq_iff_eq,
        UInt16.le_iff_toNat_le, ← UInt16.toNat_inj, UInt16.reduceToNat]
      omega
  all_goals decide

theorem toLowerCase_trim (unicode : LowerCase) (h : ∀ u ∈ s, u < 128 ∧ isSpace u = false) :
    unicode.toLowerCase (trim s) = s.map asciiLower := by
  rw [trim_eq_self fun u hu => (h u hu).2, unicode.ascii s fun u hu => (h u hu).1]

theorem startsWith_unit (h : u ∉ s) : startsWith s [u] = false := by
  rw [← Bool.not_eq_true, startsWith, isPrefixOf_iff_prefix]
  exact fun hstart => h (hstart.subset mem_cons_self)

theorem HostText.text_withoutDot (h : HostText) :
    h.withoutDot.text = if endsWith h.text (js ".") then h.text.dropLast else h.text := by
  obtain ⟨literal, zone⟩ := h
  cases zone with
  | none =>
    rw [text_none, if_neg]
    · exact text_none literal
    · rw [endsWith_dot_iff]
      exact getLast?_literal literal
  | some z =>
    have hlast : (js "%" ++ z.text).getLast? = some (unit '.') ↔
        z.text.getLast? = some (unit '.') := by
      rw [getLast?_append]
      cases z.text.getLast? <;> simp [js, utf16, unit]
    have hends : endsWith (literal.text ++ (js "%" ++ z.text)) (js ".") = true ↔
        endsWith z.text (js ".") = true := by
      rw [endsWith_dot_iff, endsWith_dot_iff,
        getLast?_append_of_ne_nil _ (by simp [js, utf16]), hlast]
    have hwithout : withoutDot ⟨literal, some z⟩ = ⟨literal, some z.withoutDot⟩ := rfl
    rw [hwithout, text_some, text_some, ZonePart.withoutDot]
    simp only [hends]
    split
    · rename_i hdot
      have hne : z.text ≠ [] := by
        rintro hnil
        rw [hnil] at hdot
        cases hdot
      rw [← append_assoc, ← append_assoc, dropLast_append_of_ne_nil hne]
    · rfl

theorem normalizeHost_text (unicode : LowerCase) (h : HostText) :
    normalizeHost unicode h.text = h.lower.withoutDot.text := by
  have hascii : ∀ u ∈ h.text, u < 128 ∧ isSpace u = false := fun u hu =>
    ascii_of_host ((HostText.mem_text hu).imp_right .inl)
  have hbracket : startsWith h.lower.text (js "[") = false :=
    startsWith_unit (h.lower.not_mem_text (by decide) (by decide))
  unfold normalizeHost
  rw [toLowerCase_trim unicode hascii, ← h.text_lower, HostText.text_withoutDot]
  simp [hbracket]

theorem normalizeHost_brackets (unicode : LowerCase) (h : HostText) :
    normalizeHost unicode (js "[" ++ (h.text ++ js "]")) = h.lower.text := by
  have hascii : ∀ u ∈ js "[" ++ (h.text ++ js "]"), u < 128 ∧ isSpace u = false := by
    intro u hu
    refine ascii_of_host ?_
    rcases mem_append.mp hu with hu | hu
    · exact .inr (.inr (.inl (mem_singleton.mp hu)))
    · rcases mem_append.mp hu with hu | hu
      · exact (HostText.mem_text hu).imp_right .inl
      · exact .inr (.inr (.inr (mem_singleton.mp hu)))
  have hlower : (js "[" ++ (h.text ++ js "]")).map asciiLower =
      js "[" ++ (h.lower.text ++ js "]") := by
    rw [map_append, map_append, h.text_lower]
    rfl
  have hstart : startsWith (js "[" ++ (h.lower.text ++ js "]")) (js "[") = true :=
    isPrefixOf_iff_prefix.mpr (prefix_append _ _)
  have hend : endsWith (js "[" ++ (h.lower.text ++ js "]")) (js "]") = true := by
    rw [← append_assoc]
    exact isSuffixOf_iff_suffix.mpr (suffix_append _ _)
  unfold normalizeHost
  rw [toLowerCase_trim unicode hascii, hlower]
  simp only [hend]
  show (h.lower.text ++ js "]").dropLast = h.lower.text
  exact dropLast_concat

/-! ## Zone ids of dots -/

theorem HostText.dots_lower {n : Nat} : h.lower.Dots n ↔ h.Dots n := by
  obtain ⟨literal, zone⟩ := h
  have hdot : ∀ u, asciiLower u = unit '.' ↔ u = unit '.' := by
    intro u
    rw [← UInt16.toNat_inj, ← UInt16.toNat_inj, toNat_asciiLower]
    have h46 : (unit '.').toNat = 46 := rfl
    split_ifs <;> omega
  cases zone with
  | none => rfl
  | some z =>
    simp [Dots, lower, ZonePart.lower, eq_replicate_iff, hdot]

theorem HostText.dots_withoutDot {n : Nat} :
    h.withoutDot.Dots n ↔ h.Dots (n + 1) ∨ (n = 0 ∧ h.Dots 0) := by
  obtain ⟨literal, zone⟩ := h
  cases zone with
  | none => simp [Dots, withoutDot]
  | some z =>
    simp only [Dots, withoutDot, Option.map_some, Option.some.injEq, ZonePart.withoutDot]
    by_cases hdot : endsWith z.text (js ".") = true
    · obtain ⟨init, hinit⟩ := getLast?_eq_some_iff.mp (endsWith_dot_iff.mp hdot)
      rw [if_pos hdot, hinit, dropLast_concat, replicate_succ']
      simp
    · have hnot : ∀ m, z.text ≠ List.replicate (m + 1) (unit '.') := by
        intro m heq
        refine hdot (endsWith_dot_iff.mpr ?_)
        rw [heq, replicate_succ', getLast?_concat]
      rw [if_neg hdot]
      cases n with
      | zero =>
        have hone := hnot 0
        simp only [hone, true_and, false_or]
      | succ n => simp [hnot n, hnot (n + 1)]

/-! ## The groups of a host -/

theorem ipv6Hextets_host (hzone : ¬ h.Dots 0) : ipv6Hextets h.text = some h.literal.groups := by
  obtain ⟨literal, zone⟩ := h
  cases zone with
  | none => exact ipv6Hextets_text ⟨literal, none⟩
  | some z =>
    have hne : z.text ≠ [] := fun hnil => hzone (by rw [HostText.Dots, Option.map_some, hnil]; rfl)
    exact ipv6Hextets_text ⟨literal, some ⟨z.text, hne, z.length_le, z.units⟩⟩

theorem text_of_dots_zero (hzone : h.Dots 0) : h.text = h.literal.text ++ js "%" := by
  obtain ⟨literal, zone⟩ := h
  cases zone with
  | none => cases hzone
  | some z =>
    have hnil : z.text = [] := Option.some.inj hzone
    rw [HostText.text_some, hnil, append_nil]

theorem percent_not_mem_literal : unit '%' ∉ l.text :=
  not_mem_literal l (by decide) (by decide) (.inr (by decide))

theorem ipVersion_host_ne_six (hzone : h.Dots 0) : ipVersion h.text ≠ 6 := by
  intro h6
  obtain ⟨⟨literal, zone⟩, htext⟩ := ipVersion_eq_six_iff.mp h6
  rw [text_of_dots_zero hzone] at htext
  cases zone with
  | none =>
    have hpercent : unit '%' ∈ ZonedLiteral.text ⟨literal, none⟩ := by
      rw [htext]
      exact mem_append_right _ mem_cons_self
    rw [ZonedLiteral.text, zoneText, append_nil] at hpercent
    exact percent_not_mem_literal literal hpercent
  | some z =>
    have hcut := Separators.separated_inj_first (percent_not_mem_literal literal)
      (percent_not_mem_literal h.literal) (x := z.text) (y := []) htext
    exact z.ne_nil hcut.2

theorem ipv6Hextets_of_dots_zero (hzone : h.Dots 0) : ipv6Hextets h.text = none := by
  unfold ipv6Hextets
  rw [if_pos (ipVersion_host_ne_six hzone)]

/-! ## The verdicts on a literal

The tests on the groups of a literal are about its address: the masks and the
comparisons of single groups are blocks of addresses (`isPrivateHextets_iff`,
`embedded_eq_some_iff`).  With them the verdicts on a host follow from the address
of its literal, unless its zone id is lost when the host is normalized
(`isPrivateHost_of_lost`, `isCloudMetadataHost_iff`).
-/

/-! ## Tests on the groups -/

section Groups

variable {a b c d e f g h : Nat} (hlt : ∀ x ∈ [a, b, c, d, e, f, g, h], x < 65536)

include hlt

theorem ofGroups_le_one_iff :
    ofGroups [a, b, c, d, e, f, g, h] ≤ 1 ↔ [a, b, c, d, e, f, g] = List.replicate 7 0 ∧ h ≤ 1 := by
  have hhigh : ∀ x ∈ [a, b, c, d, e, f, g], x < 65536 := by
    simp only [forall_mem_cons] at hlt ⊢
    tauto
  have hsplit : ofGroups [a, b, c, d, e, f, g, h] = ofGroups [a, b, c, d, e, f, g] * 65536 + h := by
    have happend := ofGroups_append [a, b, c, d, e, f, g] [h]
    simpa [ofGroups_singleton] using happend
  rw [hsplit]
  constructor
  · intro hle
    have hzero : ofGroups [a, b, c, d, e, f, g] = 0 := by omega
    exact ⟨(ofGroups_eq_zero_iff hhigh).mp hzero, by omega⟩
  · rintro ⟨hzero, hle⟩
    rw [(ofGroups_eq_zero_iff hhigh).mpr hzero]
    omega

theorem inBlock_first {base length : Nat} (hlength : length ≤ 16) :
    InBlock 128 (ofGroups [base, 0, 0, 0, 0, 0, 0, 0]) length (ofGroups [a, b, c, d, e, f, g, h]) ↔
      a / 2 ^ (16 - length) = base / 2 ^ (16 - length) :=
  inBlock_first_iff (forall_mem_cons.mp hlt).2 (by decide) rfl rfl hlength

theorem inBlock_six {base : List Nat} (hbase : ∀ x ∈ base, x < 65536) (hlength : base.length = 6) :
    InBlock 128 (ofGroups (base ++ [0, 0])) 96 (ofGroups [a, b, c, d, e, f, g, h]) ↔
      [a, b, c, d, e, f] = base := by
  have hhigh : ∀ x ∈ [a, b, c, d, e, f], x < 65536 := by
    simp only [forall_mem_cons] at hlt ⊢
    tauto
  have hlow : ∀ x ∈ [g, h], x < 65536 := by
    simp only [forall_mem_cons] at hlt ⊢
    tauto
  have hsame : [a, b, c, d, e, f].length = base.length := hlength.symm
  exact inBlock_groups_iff hhigh hbase hlow (by decide) hsame rfl rfl

theorem low_groups : ofGroups [a, b, c, d, e, f, g, h] % 2 ^ 32 = ofGroups [g, h] := by
  have hlow : ∀ x ∈ [g, h], x < 65536 := by
    simp only [forall_mem_cons] at hlt ⊢
    tauto
  have hmod : ofGroups ([a, b, c, d, e, f] ++ [g, h]) % 65536 ^ 2 = ofGroups [g, h] :=
    ofGroups_append_mod hlow
  rwa [← two_pow_groups] at hmod

theorem middle_groups : ofGroups [a, b, c, d, e, f, g, h] / 2 ^ 80 % 2 ^ 32 = ofGroups [b, c] := by
  have hlow : ∀ x ∈ [d, e, f, g, h], x < 65536 := by
    tauto
  have hmiddle : ∀ x ∈ [b, c], x < 65536 := by
    simp only [forall_mem_cons] at hlt ⊢
    tauto
  have hdiv : ofGroups ([a, b, c] ++ [d, e, f, g, h]) / 65536 ^ 5 = ofGroups [a, b, c] :=
    ofGroups_append_div hlow
  have hmod : ofGroups ([a] ++ [b, c]) % 65536 ^ 2 = ofGroups [b, c] :=
    ofGroups_append_mod hmiddle
  exact (congrArg (· % 2 ^ 32) hdiv).trans hmod

end Groups

theorem number_eq_iff {x y : Nat} (hx : x < 65536) (hy : y < 65536) (v : Ipv4Address) :
    ofGroups [x, y] = v.number ↔ v.groups = [x, y] := by
  have hlt : ∀ u ∈ [x, y], u < 65536 := by simp [hx, hy]
  constructor
  · intro heq
    have hsame : [x, y] = v.groups := ofGroups_inj rfl hlt v.groups_lt heq
    exact hsame.symm
  · intro heq
    rw [← heq]
    rfl

theorem embeds_iff {a b c d e f g h : Nat} (hlt : ∀ x ∈ [a, b, c, d, e, f, g, h], x < 65536)
    (v : Ipv4Address) :
    Embeds (ofGroups [a, b, c, d, e, f, g, h]) v ↔
      (([a, b, c, d, e, f] = [0, 0, 0, 0, 0, 0xffff] ∨ [a, b, c, d, e, f] = [0, 0, 0, 0, 0, 0] ∨
        [a, b, c, d, e, f] = [0x64, 0xff9b, 0, 0, 0, 0]) ∧ v.groups = [g, h]) ∨
      (a = 0x2002 ∧ v.groups = [b, c]) := by
  have hsix : ∀ base : List Nat, (∀ x ∈ base, x < 65536) → base.length = 6 → _ :=
    fun base => inBlock_six hlt
  have hmapped := hsix [0, 0, 0, 0, 0, 0xffff] (by decide) rfl
  have hcompatible := hsix [0, 0, 0, 0, 0, 0] (by decide) rfl
  have hnat64 := hsix [0x64, 0xff9b, 0, 0, 0, 0] (by decide) rfl
  have hsixToFour : InBlock 128 (ofGroups [0x2002, 0, 0, 0, 0, 0, 0, 0]) 16
      (ofGroups [a, b, c, d, e, f, g, h]) ↔ a / 2 ^ (16 - 16) = 0x2002 / 2 ^ (16 - 16) :=
    inBlock_first hlt (by decide)
  simp only [Nat.sub_self, pow_zero, Nat.div_one] at hsixToFour
  have hlow : ofGroups [a, b, c, d, e, f, g, h] % 2 ^ 32 = v.number ↔ v.groups = [g, h] := by
    rw [low_groups hlt]
    exact number_eq_iff (hlt g (by simp)) (hlt h (by simp)) v
  have hmiddle : ofGroups [a, b, c, d, e, f, g, h] / 2 ^ 80 % 2 ^ 32 = v.number ↔
      v.groups = [b, c] := by
    rw [middle_groups hlt]
    exact number_eq_iff (hlt b (by simp)) (hlt c (by simp)) v
  constructor
  · rintro (⟨hblock, hv⟩ | ⟨hblock, hv⟩ | ⟨hblock, hv⟩ | ⟨hblock, hv⟩)
    · exact .inl ⟨.inl (hmapped.mp hblock), hlow.mp hv⟩
    · exact .inl ⟨.inr (.inl (hcompatible.mp hblock)), hlow.mp hv⟩
    · exact .inl ⟨.inr (.inr (hnat64.mp hblock)), hlow.mp hv⟩
    · exact .inr ⟨hsixToFour.mp hblock, hmiddle.mp hv⟩
  · rintro (⟨hblock | hblock | hblock, hv⟩ | ⟨hblock, hv⟩)
    · exact .mapped (hmapped.mpr hblock) (hlow.mpr hv)
    · exact .compatible (hcompatible.mpr hblock) (hlow.mpr hv)
    · exact .nat64 (hnat64.mpr hblock) (hlow.mpr hv)
    · exact .sixToFour (hsixToFour.mpr hblock) (hmiddle.mpr hv)

theorem dottedQuad_groups {x y : Nat} {v : Ipv4Address} (hv : v.groups = [x, y]) :
    dottedQuad x y = v.text := by
  obtain ⟨rfl, hlow⟩ := List.cons.inj hv
  obtain ⟨rfl, -⟩ := List.cons.inj hlow
  have hhigh : ∀ m n : Fin 256, (256 * m.val + n.val) >>> 8 = m := by
    intro m n
    omega
  have hmod : ∀ m n : Fin 256, (256 * m.val + n.val) &&& 0xff = n := by
    intro m n
    have hmask := Nat.and_two_pow_sub_one_eq_mod (256 * m.val + n.val) 8
    rw [show 0xff = 2 ^ 8 - 1 from rfl, hmask]
    omega
  rw [dottedQuad, hhigh, hhigh, hmod, hmod]
  rfl

theorem exists_groups {x y : Nat} (hx : x < 65536) (hy : y < 65536) :
    ∃ v : Ipv4Address, v.groups = [x, y] := by
  refine ⟨⟨⟨x / 256, by omega⟩, ⟨x % 256, by omega⟩, ⟨y / 256, by omega⟩, ⟨y % 256, by omega⟩⟩, ?_⟩
  simp [Ipv4Address.groups, Nat.div_add_mod]

theorem dottedQuad_eq_iff {x y : Nat} (hx : x < 65536) (hy : y < 65536) {t : JsString} :
    dottedQuad x y = t ↔ ∃ v : Ipv4Address, v.groups = [x, y] ∧ v.text = t := by
  constructor
  · rintro rfl
    obtain ⟨v, hv⟩ := exists_groups hx hy
    exact ⟨v, hv, (dottedQuad_groups hv).symm⟩
  · rintro ⟨v, hv, rfl⟩
    exact dottedQuad_groups hv

theorem embedded_groups {a b c d e f g h : Nat} {t : JsString} :
    embeddedIpv4FromHextets [a, b, c, d, e, f, g, h] false = some t ↔
      ¬ ([a, b, c, d, e, f, g] = List.replicate 7 0 ∧ h ≤ 1) ∧
        ((([a, b, c, d, e, f] = [0, 0, 0, 0, 0, 0xffff] ∨ [a, b, c, d, e, f] = [0, 0, 0, 0, 0, 0] ∨
          [a, b, c, d, e, f] = [0x64, 0xff9b, 0, 0, 0, 0]) ∧ dottedQuad g h = t) ∨
        (a = 0x2002 ∧ dottedQuad b c = t)) := by
  simp only [embeddedIpv4FromHextets, getD_cons_zero, getD_cons_succ, Bool.false_eq_true, if_false]
  split_ifs with hmapped hcompatible hnat64 hsixToFour
  · simp at hmapped
    grind
  · simp at hmapped hcompatible
    grind
  · simp at hmapped hcompatible hnat64
    grind
  all_goals
    simp at hmapped hcompatible hnat64 hsixToFour
    grind

theorem eight_groups {groups : List Nat} (hlength : groups.length = 8) :
    ∃ a b c d e f g h, groups = [a, b, c, d, e, f, g, h] := by
  match groups, hlength with
  | [a, b, c, d, e, f, g, h], _ => exact ⟨a, b, c, d, e, f, g, h, rfl⟩

theorem embedded_eq_some_iff {groups : List Nat} (hlength : groups.length = 8)
    (hlt : ∀ x ∈ groups, x < 65536) {t : JsString} :
    embeddedIpv4FromHextets groups false = some t ↔
      1 < ofGroups groups ∧ ∃ v, Embeds (ofGroups groups) v ∧ v.text = t := by
  obtain ⟨a, b, c, d, e, f, g, h, rfl⟩ := eight_groups hlength
  have hlow := dottedQuad_eq_iff (t := t) (hlt g (by simp)) (hlt h (by simp))
  have hmiddle := dottedQuad_eq_iff (t := t) (hlt b (by simp)) (hlt c (by simp))
  rw [embedded_groups, ← ofGroups_le_one_iff hlt, hlow, hmiddle, Nat.not_le]
  refine and_congr_right fun _ => ?_
  simp only [embeds_iff hlt]
  constructor
  · rintro (⟨hblock, v, hv, htext⟩ | ⟨hblock, v, hv, htext⟩)
    · exact ⟨v, .inl ⟨hblock, hv⟩, htext⟩
    · exact ⟨v, .inr ⟨hblock, hv⟩, htext⟩
  · rintro ⟨v, ⟨hblock, hv⟩ | ⟨hblock, hv⟩, htext⟩
    · exact .inl ⟨hblock, v, hv, htext⟩
    · exact .inr ⟨hblock, v, hv, htext⟩

theorem isPrivateHextets_iff {groups : List Nat} (hlength : groups.length = 8)
    (hlt : ∀ x ∈ groups, x < 65536) :
    isPrivateHextets groups = true ↔ ofGroups groups ≤ 1 ∨
      InBlock 128 (ofGroups [0xfc00, 0, 0, 0, 0, 0, 0, 0]) 7 (ofGroups groups) ∨
      InBlock 128 (ofGroups [0xfe80, 0, 0, 0, 0, 0, 0, 0]) 10 (ofGroups groups) ∨
      InBlock 128 (ofGroups [0xfec0, 0, 0, 0, 0, 0, 0, 0]) 10 (ofGroups groups) ∨
      InBlock 128 (ofGroups [0xff00, 0, 0, 0, 0, 0, 0, 0]) 8 (ofGroups groups) := by
  obtain ⟨a, b, c, d, e, f, g, h, rfl⟩ := eight_groups hlength
  have ha : a < 2 ^ 16 := hlt a (by simp)
  have hunique : a &&& 0xfe00 = 0xfc00 ↔ a / 2 ^ 9 = 0x7e :=
    and_mask_eq_iff (m := 7) (k := 9) (n := 0x7e) ha
  have hlink : a &&& 0xffc0 = 0xfe80 ↔ a / 2 ^ 6 = 0x3fa :=
    and_mask_eq_iff (m := 10) (k := 6) (n := 0x3fa) ha
  have hsite : a &&& 0xffc0 = 0xfec0 ↔ a / 2 ^ 6 = 0x3fb :=
    and_mask_eq_iff (m := 10) (k := 6) (n := 0x3fb) ha
  rw [inBlock_first hlt (by decide), inBlock_first hlt (by decide), inBlock_first hlt (by decide),
    inBlock_first hlt (by decide), ofGroups_le_one_iff hlt]
  simp only [isPrivateHextets, getD_cons_zero, Bool.or_eq_true, Bool.and_eq_true, decide_eq_true_eq,
    beq_iff_eq, hunique, hlink, hsite, Nat.shiftRight_eq_div_pow, or_assoc]
  have hzeros : ([a, b, c, d, e, f, g, h].take 7).all (· == 0) = true ↔
      [a, b, c, d, e, f, g] = List.replicate 7 0 := by
    simp
  rw [hzeros]
  rfl

/-! ## IPv4 addresses as hosts -/

theorem ipVersion_ipv4 (v : Ipv4Address) : ipVersion v.text = 4 := by
  have hlength := length_ipv4_le v
  have hne := (getLast?_ipv4 v).1
  unfold ipVersion maxIpLiteralLength
  rw [if_neg (by simp only [hne, decide_false, Bool.false_or, decide_eq_true_eq]; omega),
    if_pos (test_ipv4Re.mpr ⟨v, rfl⟩)]

theorem isZoneUnit_of_mem_ipv4 (v : Ipv4Address) : ∀ u ∈ v.text, isZoneUnit u = true := by
  intro u hu
  by_contra hunit
  have hhex : JsonText.hexValue u = none := by
    rw [← Option.not_isSome_iff_eq_none]
    exact fun hhex => hunit (isZoneUnit_of_hexValue hhex)
  refine not_mem_ipv4 v hhex (fun hdot => hunit ?_) hu
  rw [mem_singleton.mp hdot]
  decide

variable (unicode : LowerCase)

theorem normalizeHost_ipv4 (v : Ipv4Address) : normalizeHost unicode v.text = v.text := by
  have hascii : ∀ u ∈ v.text, u < 128 ∧ isSpace u = false := fun u hu =>
    ascii_of_host (.inl (isZoneUnit_of_mem_ipv4 v u hu))
  have hbracket : startsWith v.text (js "[") = false := by
    refine startsWith_unit fun hmem => ?_
    have hunit := isZoneUnit_of_mem_ipv4 v _ hmem
    revert hunit
    decide
  have hdot : ¬ endsWith v.text (js ".") = true := fun hdot =>
    (getLast?_ipv4 v).2 (endsWith_dot_iff.mp hdot)
  unfold normalizeHost
  rw [toLowerCase_trim unicode hascii, v.map_asciiLower]
  simp only [hbracket, Bool.false_and, Bool.false_eq_true, if_false]
  rw [if_neg hdot]

theorem isPrivateHostIn_ipv4 (rounds : Nat) (v : Ipv4Address) :
    isPrivateHostIn unicode (rounds + 1) v.text = isPrivateHost unicode v.text := by
  simp [isPrivateHost, isPrivateHostIn, normalizeHost_ipv4, ipVersion_ipv4]

theorem isPrivateName_ipv4 {v : Ipv4Address} (h : isPrivateName v.text = true) :
    v.text = js "0.0.0.0" ∨ v.text = js "127.0.0.1" := by
  -- the other names have a letter or a colon
  have hletter : unit 'l' ∉ v.text := not_mem_ipv4 v (by decide) (by decide)
  have hcolon : unit ':' ∉ v.text := colon_not_mem_ipv4 v
  have hends : ∀ name : JsString, unit 'l' ∈ name → ¬ endsWith v.text name = true := by
    intro name hname hends
    exact hletter ((isSuffixOf_iff_suffix.mp hends).subset hname)
  have hstarts : ¬ startsWith v.text (js "::ffff:") = true := fun hstarts =>
    hcolon (( isPrefixOf_iff_prefix.mp hstarts).subset (by decide))
  have hne : ∀ name : JsString, unit 'l' ∈ name ∨ unit ':' ∈ name → v.text ≠ name := by
    rintro _ hname rfl
    exact hname.elim hletter hcolon
  have hlocalhost := hends (js ".localhost") (by decide)
  have hlocal := hends (js ".local") (by decide)
  have hinternal := hends (js ".internal") (by decide)
  simp only [isPrivateName, Bool.or_eq_true, beq_iff_eq, hne (js "localhost") (.inl (by decide)),
    hne (js "::") (.inr (by decide)), hne (js "::1") (.inr (by decide)), hlocalhost, hlocal,
    hinternal, hstarts, Bool.false_eq_true, false_or, or_false] at h
  exact h

theorem octets_of_text {v : Ipv4Address} {a b c d : Fin 256}
    (h : v.text = (Ipv4Address.mk a b c d).text) : v = ⟨a, b, c, d⟩ := by
  have hsplit := congrArg (fun s => (s.splitOn (unit '.')).map (parseInt 10)) h
  obtain ⟨a', b', c', d'⟩ := v
  simp only [splitOn_ipv4, map_cons, parseInt_ofNat, List.cons.injEq, Option.some.injEq, and_true] at hsplit
  obtain ⟨ha, hb, hc, hd⟩ := hsplit
  rw [Fin.ext ha, Fin.ext hb, Fin.ext hc, Fin.ext hd]

theorem isPrivateHost_ipv4 (v : Ipv4Address) :
    isPrivateHost unicode v.text = isPrivateOctets v.a v.b v.c v.d := by
  simp only [isPrivateHost, isPrivateHostIn, normalizeHost_ipv4, (getLast?_ipv4 v).1, if_false,
    ipVersion_ipv4, if_true, splitOn_ipv4, map_cons, parseInt_ofNat]
  split
  · rename_i hname
    rcases isPrivateName_ipv4 hname with hzero | hloopback
    · rw [octets_of_text (hzero.trans (by decide : _ = (Ipv4Address.mk 0 0 0 0).text))]
      decide
    · rw [octets_of_text (hloopback.trans (by decide : _ = (Ipv4Address.mk 127 0 0 1).text))]
      decide
  · rfl

/-! ## Private hosts -/

theorem ipVersion_host_ne_four (h : HostText) : ipVersion h.text ≠ 4 := by
  intro h4
  unfold ipVersion at h4
  split_ifs at h4 with hlength hipv4
  · obtain ⟨v, hv⟩ := test_ipv4Re.mp hipv4
    refine colon_not_mem_ipv4 v ?_
    rw [hv]
    exact mem_append_left _ (colon_mem_literal h.literal)
  · cases h4

theorem isPrivateHextets_of_restricted {isPrivate : Ipv4Address → Prop} {l : Ipv6Literal}
    (h : Restricted isPrivate l.address) :
    isPrivateHextets l.groups = true ∨
      ∃ v, isPrivate v ∧ embeddedIpv4FromHextets l.groups false = some v.text := by
  have hiff := isPrivateHextets_iff l.groups_length l.groups_lt
  cases h with
  | unspecified hzero => exact .inl (hiff.mpr (.inl (by rw [← Ipv6Literal.address, hzero]; decide)))
  | loopback hone => exact .inl (hiff.mpr (.inl hone.le))
  | uniqueLocal hblock => exact .inl (hiff.mpr (.inr (.inl hblock)))
  | linkLocal hblock => exact .inl (hiff.mpr (.inr (.inr (.inl hblock))))
  | siteLocal hblock => exact .inl (hiff.mpr (.inr (.inr (.inr (.inl hblock)))))
  | multicast hblock => exact .inl (hiff.mpr (.inr (.inr (.inr (.inr hblock)))))
  | embedded v hembeds hprivate =>
    rcases Nat.lt_or_ge 1 l.address with hlarge | hsmall
    · exact .inr ⟨v, hprivate, (embedded_eq_some_iff l.groups_length l.groups_lt).mpr
        ⟨hlarge, v, hembeds, rfl⟩⟩
    · exact .inl (hiff.mpr (.inl hsmall))

variable {unicode} {hostname : JsString} {h : HostText}

theorem isPrivateHost_of_restricted (hnormal : normalizeHost unicode hostname = h.text)
    (hzone : ¬ h.Dots 0)
    (hrestricted : Restricted (fun v => isPrivateHost unicode v.text = true) h.literal.address) :
    isPrivateHost unicode hostname = true := by
  unfold isPrivateHost isPrivateHostIn
  simp only [hnormal, h.text_ne_nil, if_false, ipVersion_host_ne_four, ipv6Hextets_host hzone]
  split
  · rfl
  · rw [Bool.or_eq_true]
    rcases isPrivateHextets_of_restricted hrestricted with hgroups | ⟨v, hprivate, hembedded⟩
    · exact .inr hgroups
    · left
      rw [hembedded, Option.any_some, isPrivateHostIn_ipv4]
      exact hprivate

theorem endsWith_percent {s name : JsString} (hne : name ≠ [])
    (hlast : name.getLast? ≠ some (unit '%')) : endsWith (s ++ js "%") name = false := by
  rw [← Bool.not_eq_true, endsWith, isSuffixOf_iff_suffix]
  intro hsuffix
  rcases suffix_concat_iff.mp hsuffix with hnil | ⟨init, hinit, -⟩
  · exact hne hnil
  · refine hlast ?_
    rw [hinit, getLast?_concat]
    rfl

theorem ne_of_endsWith {s name : JsString} (h : endsWith s name = false) : (s == name) = false := by
  rw [beq_eq_false_iff_ne]
  rintro rfl
  rw [endsWith, isSuffixOf_iff_suffix.mpr (suffix_refl s)] at h
  cases h

theorem isPrivateName_percent (s : JsString) :
    isPrivateName (s ++ js "%") = startsWith s (js "::ffff:") := by
  have hends : ∀ name : JsString, name ≠ [] → name.getLast? ≠ some (unit '%') →
      endsWith (s ++ js "%") name = false := fun name => endsWith_percent
  have hstart : startsWith (s ++ js "%") (js "::ffff:") = startsWith s (js "::ffff:") := by
    rw [Bool.eq_iff_iff, startsWith, startsWith, isPrefixOf_iff_prefix, isPrefixOf_iff_prefix]
    refine prefix_concat_iff.trans (or_iff_right fun heq => ?_)
    have hlast := congrArg List.getLast? heq
    rw [getLast?_concat] at hlast
    revert hlast
    decide
  unfold isPrivateName
  rw [ne_of_endsWith (hends (js "localhost") (by decide) (by decide)),
    ne_of_endsWith (hends (js "0.0.0.0") (by decide) (by decide)),
    ne_of_endsWith (hends (js "::") (by decide) (by decide)),
    ne_of_endsWith (hends (js "127.0.0.1") (by decide) (by decide)),
    ne_of_endsWith (hends (js "::1") (by decide) (by decide)),
    hends (js ".localhost") (by decide) (by decide), hends (js ".local") (by decide) (by decide),
    hends (js ".internal") (by decide) (by decide), hstart]
  rfl

theorem isPrivateHost_of_lost (hnormal : normalizeHost unicode hostname = h.text)
    (hzone : h.Dots 0) :
    isPrivateHost unicode hostname = startsWith h.literal.text (js "::ffff:") := by
  unfold isPrivateHost isPrivateHostIn
  simp only [hnormal, h.text_ne_nil, if_false, ipVersion_host_ne_four,
    ipv6Hextets_of_dots_zero hzone]
  rw [text_of_dots_zero hzone, isPrivateName_percent]
  split
  · rename_i hstart
    exact hstart.symm
  · rename_i hstart
    exact (Bool.eq_false_iff.mpr hstart).symm

/-! ## Hosts of metadata -/

/-- The address is that of a metadata endpoint, or carries one of IPv4. -/
def Metadata (address : Nat) : Prop :=
  address = ofGroups [0xfd00, 0xec2, 0, 0, 0, 0, 0, 0x254] ∨
    ∃ v, Embeds address v ∧ isCloudMetadataIpv4 v.text = true

def awsLiteral : Ipv6Literal :=
  .shortened [⟨js "fd00", by decide, by decide, all_eq_true.mp (by decide)⟩,
      ⟨js "ec2", by decide, by decide, all_eq_true.mp (by decide)⟩]
    ⟨[⟨js "254", by decide, by decide, all_eq_true.mp (by decide)⟩], none⟩ (by decide)

theorem ipv6Hextets_aws : ipv6Hextets (normalizeHost unicode awsIpv6Imds) =
      some [0xfd00, 0xec2, 0, 0, 0, 0, 0, 0x254] := by
  have htext : awsIpv6Imds = HostText.text ⟨awsLiteral, none⟩ := by decide
  have hzone : ¬ (HostText.mk awsLiteral none).lower.withoutDot.Dots 0 := by
    intro hdots
    cases hdots
  have hgroups : awsLiteral.groups = [0xfd00, 0xec2, 0, 0, 0, 0, 0, 0x254] := by decide
  rw [htext, normalizeHost_text, ipv6Hextets_host hzone]
  exact congrArg some ((Ipv6Literal.groups_lower awsLiteral).trans hgroups)

theorem dot_not_mem_first (l : Ipv6Literal) :
    ∃ first rest, l.text = first ++ (js ":" ++ rest) ∧ unit '.' ∉ first := by
  have hhex : ∀ g : HexGroup, unit '.' ∉ g.text := fun g => g.not_mem (by decide)
  cases l with
  | whole t size =>
    obtain ⟨gs, dotted⟩ := t
    have hlength := size
    rw [values_length] at hlength
    rcases gs with _ | ⟨g, _ | ⟨g', rest⟩⟩
    · cases dotted <;> simp at hlength
    · cases dotted <;> simp at hlength
    · refine ⟨g.text, g'.text ++
        (rest.map HexGroup.text ++ dotted.toList.map Ipv4Address.text).flatMap fun t => js ":" ++ t,
        ?_, hhex g⟩
      rw [Ipv6Literal.text, Groups.text, Groups.texts, map_cons, cons_append,
        JsString.join_cons, map_cons, cons_append, flatMap_cons, append_assoc]
  | shortened head rest size =>
    refine ⟨join (js ":") (head.map HexGroup.text), js ":" ++ rest.text, rfl, fun hmem => ?_⟩
    rcases mem_join hmem with hcolon | ⟨t, ht, hdot⟩
    · revert hcolon
      decide
    · obtain ⟨g, -, rfl⟩ := mem_map.mp ht
      exact hhex g hdot

theorem isCloudMetadataIpv4_host (h : HostText) : isCloudMetadataIpv4 h.text = false := by
  have hnames : (cloudMetadataHostnames.all fun name => !name.contains (unit ':')) = true := by
    decide
  have hcolon : unit ':' ∈ h.text := mem_append_left _ (colon_mem_literal h.literal)
  unfold isCloudMetadataIpv4
  rw [Bool.or_eq_false_iff]
  constructor
  · rw [← Bool.not_eq_true, contains_iff_mem]
    intro hmem
    have hname := all_eq_true.mp hnames _ hmem
    simp [hcolon] at hname
  · rw [← Bool.not_eq_true, startsWith, isPrefixOf_iff_prefix]
    rintro ⟨rest, htext⟩
    obtain ⟨first, rest', hfirst, hdot⟩ := dot_not_mem_first h.literal
    rw [HostText.text, hfirst, append_assoc, append_assoc] at htext
    rcases append_eq_append_iff.mp htext with ⟨as, rfl, -⟩ | ⟨bs, hbs, hcons⟩
    · exact hdot (mem_append_left _ (by decide))
    · rcases bs with _ | ⟨u, bs⟩
      · rw [append_nil] at hbs
        refine hdot ?_
        rw [← hbs]
        decide
      · obtain ⟨rfl, -⟩ := List.cons.inj hcons
        have hmem : unit ':' ∈ js "169.254." := by
          rw [hbs]
          exact mem_append_right _ mem_cons_self
        revert hmem
        decide

theorem all_zipIdx_iff {first second : List Nat} (hlength : first.length = second.length) :
    (first.zipIdx.all fun (value, index) => some value == second[index]?) = true ↔
      first = second := by
  rw [all_eq_true]
  constructor
  · intro hall
    refine ext_getElem hlength fun i hi hi' => ?_
    have hvalue := hall (first[i], i) (mk_mem_zipIdx_iff_getElem?.mpr (by simp))
    simpa [hi'] using hvalue
  · rintro rfl ⟨value, index⟩ hmem
    simpa using (mk_mem_zipIdx_iff_getElem?.mp hmem).symm

theorem one_lt_of_metadata {address : Nat} {v : Ipv4Address} (hembeds : Embeds address v)
    (hv : isCloudMetadataIpv4 v.text = true) : 1 < address := by
  by_contra hsmall
  have hnumber : v.number ≤ 1 := by
    cases hembeds with
    | mapped _ hv => omega
    | compatible _ hv => omega
    | nat64 _ hv => omega
    | sixToFour _ hv => omega
  obtain ⟨a, b, c, d⟩ := v
  simp only [Ipv4Address.number, Ipv4Address.groups, ofGroups, foldl_cons, foldl_nil]
    at hnumber
  obtain rfl : a = 0 := Fin.ext (by simp only [Fin.val_zero]; omega)
  obtain rfl : b = 0 := Fin.ext (by simp only [Fin.val_zero]; omega)
  obtain rfl : c = 0 := Fin.ext (by simp only [Fin.val_zero]; omega)
  obtain rfl | rfl : d = 0 ∨ d = 1 := by
    rcases Nat.le_one_iff_eq_zero_or_eq_one.mp (by omega : d.val ≤ 1) with hd | hd
    · exact .inl (Fin.ext hd)
    · exact .inr (Fin.ext hd)
  all_goals
    revert hv
    decide

theorem isCloudMetadataHost_iff (hnormal : normalizeHost unicode hostname = h.text) :
    isCloudMetadataHost unicode hostname = true ↔
      ¬ h.lower.withoutDot.Dots 0 ∧ Metadata h.literal.address := by
  unfold isCloudMetadataHost isSameIpv6Address embeddedIpv4Host
  simp only [hnormal, h.text_ne_nil, if_false, isCloudMetadataIpv4_host, Bool.false_eq_true,
    normalizeHost_text, ipv6Hextets_aws]
  by_cases hzone : h.lower.withoutDot.Dots 0
  · simp [ipv6Hextets_of_dots_zero hzone, hzone]
  · have hgroups : h.lower.withoutDot.literal.groups = h.literal.groups := h.literal.groups_lower
    rw [ipv6Hextets_host hzone, hgroups]
    have hlength := h.literal.groups_length
    have hsame : (h.literal.groups.zipIdx.all fun (value, index) =>
          some value == ([0xfd00, 0xec2, 0, 0, 0, 0, 0, 0x254] : List Nat)[index]?) = true ↔
        h.literal.groups = [0xfd00, 0xec2, 0, 0, 0, 0, 0, 0x254] := all_zipIdx_iff hlength
    have haddress : h.literal.groups = [0xfd00, 0xec2, 0, 0, 0, 0, 0, 0x254] ↔
        h.literal.address = ofGroups [0xfd00, 0xec2, 0, 0, 0, 0, 0, 0x254] :=
      ⟨fun heq => by rw [Ipv6Literal.address, heq],
        ofGroups_inj hlength h.literal.groups_lt (by decide)⟩
    have hembedded :
        (embeddedIpv4FromHextets h.literal.groups false).any isCloudMetadataIpv4 = true ↔
          ∃ v, Embeds h.literal.address v ∧ isCloudMetadataIpv4 v.text = true := by
      rw [Option.any_eq_true]
      simp only [embedded_eq_some_iff h.literal.groups_length h.literal.groups_lt]
      constructor
      · rintro ⟨_, ⟨-, v, hembeds, rfl⟩, hv⟩
        exact ⟨v, hembeds, hv⟩
      · rintro ⟨v, hembeds, hv⟩
        exact ⟨v.text, ⟨one_lt_of_metadata hembeds hv, v, hembeds, rfl⟩, hv⟩
    simp only [hsame]
    rw [Metadata, ← haddress, ← hembedded, and_iff_right hzone]
    split
    · rename_i heq
      exact iff_of_true rfl (.inl heq)
    · rename_i heq
      exact (or_iff_right heq).symm

structure Spelling where
  literal : ZonedLiteral
  bracketed : Bool

variable (s : Spelling)

namespace Spelling

def host : JsString :=
  if s.bracketed then js "[" ++ (s.literal.text ++ js "]") else s.literal.text

def address (s : Spelling) : Nat := s.literal.literal.address

def ZoneIs (zone : JsString) : Prop := s.literal.zone.map Zone.text = some zone

/-- Normalized once, the host has an empty zone id. -/
def LosesZone : Prop := s.bracketed = false ∧ s.ZoneIs (js ".")

/-- Normalized twice, the host has an empty zone id. -/
def LosesZoneTwice : Prop :=
  s.ZoneIs (js ".") ∨ (s.bracketed = false ∧ s.ZoneIs (js ".."))

/-- The host in lower case begins with `::ffff:`. -/
def MappedByName : Prop :=
  startsWith (s.literal.literal.text.map asciiLower) (js "::ffff:") = true

def normal : HostText :=
  if s.bracketed then s.literal.host.lower else s.literal.host.lower.withoutDot

end Spelling

/-- What the verdicts promise for a spelling, and for another one of the same address. -/
structure ClassifiedSoundly (unicode : LowerCase) (a b : Spelling) : Prop where
  groups : ipv6Hextets a.literal.text = some a.literal.literal.groups
  restricted : Restricted (fun v => isPrivateHost unicode v.text = true) a.address →
    isPrivateHost unicode a.host = true
  metadata : a.address = b.address →
    isCloudMetadataHost unicode a.host = isCloudMetadataHost unicode b.host

variable {unicode : LowerCase}

theorem normalizeHost_spelling (s : Spelling) : normalizeHost unicode s.host = s.normal.text := by
  obtain ⟨literal, bracketed⟩ := s
  cases bracketed with
  | false =>
    have hnormal := normalizeHost_text unicode literal.host
    rw [host_text] at hnormal
    exact hnormal
  | true =>
    have hnormal := normalizeHost_brackets unicode literal.host
    rw [host_text] at hnormal
    exact hnormal

theorem normal_literal : s.normal.literal = s.literal.literal.lower := by
  unfold Spelling.normal
  split <;> rfl

theorem normal_address : s.normal.literal.address = s.address := by
  rw [normal_literal, Ipv6Literal.address, Ipv6Literal.groups_lower]
  rfl

theorem dots_host {l : ZonedLiteral} {n : Nat} :
    l.host.Dots n ↔ l.zone.map Zone.text = some (List.replicate n (unit '.')) := by
  obtain ⟨literal, zone⟩ := l
  cases zone <;> rfl

theorem not_dots_zero (l : ZonedLiteral) : ¬ l.host.Dots 0 := by
  rw [dots_host]
  intro hzone
  obtain ⟨zone, -, hnil⟩ := Option.map_eq_some_iff.mp hzone
  exact zone.ne_nil hnil

theorem lost_iff : s.normal.Dots 0 ↔ s.LosesZone := by
  obtain ⟨literal, bracketed⟩ := s
  have hnot := not_dots_zero literal
  cases bracketed with
  | false =>
    show literal.host.lower.withoutDot.Dots 0 ↔ _
    rw [HostText.dots_withoutDot, HostText.dots_lower, HostText.dots_lower, dots_host]
    simp only [hnot, and_false, or_false]
    exact (and_iff_right rfl).symm
  | true =>
    show literal.host.lower.Dots 0 ↔ _
    rw [HostText.dots_lower]
    exact iff_of_false hnot fun h => by cases h.1

theorem lost_twice_iff : s.normal.lower.withoutDot.Dots 0 ↔ s.LosesZoneTwice := by
  have honce := lost_iff s
  rw [HostText.dots_withoutDot, HostText.dots_lower, HostText.dots_lower, honce]
  obtain ⟨literal, bracketed⟩ := s
  cases bracketed with
  | false =>
    show literal.host.lower.withoutDot.Dots 1 ∨ _ ↔ _
    rw [HostText.dots_withoutDot, HostText.dots_lower, dots_host]
    simp only [Spelling.LosesZone, Spelling.LosesZoneTwice, true_and, one_ne_zero, false_and,
      or_false]
    exact or_comm
  | true =>
    show literal.host.lower.Dots 1 ∨ _ ↔ _
    rw [HostText.dots_lower, dots_host]
    simp only [Spelling.LosesZone, Spelling.LosesZoneTwice, Bool.true_eq_false, false_and,
      and_false]
    rfl

/-- A literal with a zone id is private by its name when the zone id is lost, or not at all. -/
theorem isPrivateHost_spelling (s : Spelling) :
    (Restricted (fun v => isPrivateHost unicode v.text = true) s.address →
        isPrivateHost unicode s.host = true) ↔
      ¬ (s.LosesZone ∧ Restricted (fun v => isPrivateOctets v.a v.b v.c v.d = true) s.address ∧
        ¬ s.MappedByName) := by
  have hnormal : normalizeHost unicode s.host = s.normal.text := normalizeHost_spelling s
  have hoctets : (fun v : Ipv4Address => isPrivateHost unicode v.text = true) =
      fun v => isPrivateOctets v.a v.b v.c v.d = true := by
    funext v
    rw [isPrivateHost_ipv4]
  rw [hoctets]
  by_cases hlost : s.LosesZone
  · have hname : isPrivateHost unicode s.host = true ↔ s.MappedByName := by
      rw [isPrivateHost_of_lost hnormal ((lost_iff s).mpr hlost), normal_literal,
        Ipv6Literal.text_lower]
      rfl
    tauto
  · refine iff_of_true (fun hrestricted => ?_) fun h => hlost h.1
    refine isPrivateHost_of_restricted hnormal (fun hzone => hlost ((lost_iff s).mp hzone)) ?_
    rw [hoctets, normal_address]
    exact hrestricted

theorem isCloudMetadataHost_spelling (s : Spelling) :
    isCloudMetadataHost unicode s.host = true ↔ ¬ s.LosesZoneTwice ∧ Metadata s.address := by
  rw [isCloudMetadataHost_iff (normalizeHost_spelling s), lost_twice_iff, normal_address]

/-- The spellings are those that `ipVersion` accepts.  The verdicts are about the
address, unless the zone id is lost. -/
theorem classifiedSoundly_iff :
    (∀ host, ipVersion host = 6 ↔ ∃ l : ZonedLiteral, l.text = host) ∧
      ∀ a b : Spelling, ClassifiedSoundly unicode a b ↔
        ¬ (a.LosesZone ∧ Restricted (fun v => isPrivateOctets v.a v.b v.c v.d = true) a.address ∧
          ¬ a.MappedByName) ∧
        (a.address = b.address → Metadata a.address → (a.LosesZoneTwice ↔ b.LosesZoneTwice)) := by
  refine ⟨fun host => ipVersion_eq_six_iff, fun a b => ?_⟩
  have hsame : isCloudMetadataHost unicode a.host = isCloudMetadataHost unicode b.host ↔
      (¬ a.LosesZoneTwice ∧ Metadata a.address ↔ ¬ b.LosesZoneTwice ∧ Metadata b.address) := by
    rw [Bool.eq_iff_iff, isCloudMetadataHost_spelling, isCloudMetadataHost_spelling]
  constructor
  · rintro ⟨-, hrestricted, hmetadata⟩
    refine ⟨(isPrivateHost_spelling a).mp hrestricted, fun haddress hendpoint => ?_⟩
    have hverdicts := hsame.mp (hmetadata haddress)
    rw [← haddress, and_iff_left hendpoint, and_iff_left hendpoint] at hverdicts
    exact not_iff_not.mp hverdicts
  · rintro ⟨hrestricted, hzones⟩
    refine ⟨ipv6Hextets_text a.literal, (isPrivateHost_spelling a).mpr hrestricted,
      fun haddress => hsame.mpr ?_⟩
    rw [← haddress]
    tauto

/-- `toLowerCase` on ASCII text. -/
def asciiCase : LowerCase where
  toLowerCase := fun s => s.map asciiLower
  ascii := fun _ _ => rfl

/-- `fe80::1%.` -/
def linkLocalDot : Spelling where
  literal :=
    { literal := .shortened [⟨js "fe80", by decide, by decide, List.all_eq_true.mp (by decide)⟩]
        ⟨[⟨js "1", by decide, by decide, List.all_eq_true.mp (by decide)⟩], none⟩ (by decide)
      zone := some ⟨js ".", by decide, by decide, List.all_eq_true.mp (by decide)⟩ }
  bracketed := false

/-- A link-local address that is not private. -/
theorem linkLocalDot_public :
    linkLocalDot.host = js "fe80::1%." ∧ ipVersion (js "fe80::1%.") = 6 ∧
      InBlock 128 (ofGroups [0xfe80, 0, 0, 0, 0, 0, 0, 0]) 10 linkLocalDot.address ∧
      isPrivateHost asciiCase (js "fe80::1%.") = false ∧
      ¬ ClassifiedSoundly asciiCase linkLocalDot linkLocalDot := by
  have hhost : linkLocalDot.host = js "fe80::1%." := by decide
  have hblock : InBlock 128 (ofGroups [0xfe80, 0, 0, 0, 0, 0, 0, 0]) 10 linkLocalDot.address := by
    decide
  have hlost : linkLocalDot.LosesZone := ⟨rfl, rfl⟩
  have hpublic : isPrivateHost asciiCase (js "fe80::1%.") = false := by
    rw [← hhost, isPrivateHost_of_lost (normalizeHost_spelling linkLocalDot)
      ((lost_iff linkLocalDot).mpr hlost)]
    decide
  refine ⟨hhost, ipVersion_eq_six_iff.mpr ⟨linkLocalDot.literal, hhost⟩, hblock, hpublic, ?_⟩
  intro h
  have hprivate := h.restricted (.linkLocal hblock)
  rw [hhost, hpublic] at hprivate
  cases hprivate

end RedRouter.Network
