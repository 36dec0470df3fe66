import RedRouter.Lib.AddressBlocks
import RedRouter.Lib.JsonText

/-!
# IPv6 literals

The text forms of RFC 4291, with a zone id behind them, and what they mean: eight
groups, of which a `::` leaves out those that are zero and a dotted IPv4 address is
the last two.  An `Ipv6Literal` is well formed as it is built, so that each has eight
groups of 16 bits (`groups_length`, `groups_lt`).

`Restricted` are the addresses that are not to be reached from outside.
-/

namespace RedRouter.Network

open List JsString AddressBlocks

/-- One to four hex digits. -/
structure HexGroup where
  text : JsString
  ne_nil : text ≠ []
  length_le : text.length ≤ 4
  digits : ∀ u ∈ text, (JsonText.hexValue u).isSome = true

def HexGroup.value (g : HexGroup) : Nat :=
  (g.text.filterMap JsonText.hexValue).foldl (fun n d => 16 * n + d) 0

structure Ipv4Address where
  a : Fin 256
  b : Fin 256
  c : Fin 256
  d : Fin 256

variable (v : Ipv4Address)

namespace Ipv4Address

def text : JsString :=
  ofNat v.a ++ js "." ++ ofNat v.b ++ js "." ++ ofNat v.c ++ js "." ++ ofNat v.d

def groups : List Nat := [256 * v.a + v.b, 256 * v.c + v.d]

def number : Nat := ofGroups v.groups

end Ipv4Address

/-- Groups between single colons, with a dotted address at the end. -/
structure Groups where
  hex : List HexGroup
  dotted : Option Ipv4Address

namespace Groups

def texts (t : Groups) : List JsString :=
  t.hex.map HexGroup.text ++ t.dotted.toList.map Ipv4Address.text

def text (t : Groups) : JsString := join (js ":") t.texts

def values (t : Groups) : List Nat :=
  t.hex.map HexGroup.value ++ t.dotted.toList.flatMap Ipv4Address.groups

end Groups

inductive Ipv6Literal where
  | whole (groups : Groups) (size : groups.values.length = 8)
  /-- groups, `::` and more groups; the `::` stands for one group of zero or more -/
  | shortened (head : List HexGroup) (rest : Groups) (size : head.length + rest.values.length < 8)

namespace Ipv6Literal

def text : Ipv6Literal → JsString
  | .whole groups _ => groups.text
  | .shortened head rest _ => join (js ":") (head.map HexGroup.text) ++ (js "::" ++ rest.text)

def groups : Ipv6Literal → List Nat
  | .whole groups _ => groups.values
  | .shortened head rest _ =>
      head.map HexGroup.value ++ List.replicate (8 - head.length - rest.values.length) 0 ++
        rest.values

def address (l : Ipv6Literal) : Nat := ofGroups l.groups

end Ipv6Literal

def isZoneUnit (u : UInt16) : Bool :=
  (unit '0' ≤ u && u ≤ unit '9') || (unit 'a' ≤ u && u ≤ unit 'z') ||
    (unit 'A' ≤ u && u ≤ unit 'Z') || u == unit '-' || u == unit '.' || u == unit ':'

structure Zone where
  text : JsString
  ne_nil : text ≠ []
  length_le : text.length ≤ 64
  units : ∀ u ∈ text, isZoneUnit u = true

/-- A literal, with or without `%` and a zone id. -/
structure ZonedLiteral where
  literal : Ipv6Literal
  zone : Option Zone

def zoneText : Option Zone → JsString
  | none => []
  | some zone => js "%" ++ zone.text

def ZonedLiteral.text (l : ZonedLiteral) : JsString := l.literal.text ++ zoneText l.zone

/-! ## What the groups are -/

theorem hexValue_lt {u : UInt16} {n : Nat} (h : JsonText.hexValue u = some n) : n < 16 := by
  unfold JsonText.hexValue JsonText.isDigit at h
  simp only [Bool.and_eq_true, decide_eq_true_eq, UInt16.le_iff_toNat_le, UInt16.reduceToNat] at h
  split_ifs at h <;> simp only [Option.some.injEq] at h <;> omega

theorem foldl_digits_lt {digits : List Nat} (h : ∀ d ∈ digits, d < 16) (n : Nat) :
    digits.foldl (fun n d => 16 * n + d) n < (n + 1) * 16 ^ digits.length := by
  induction digits generalizing n with
  | nil => simp
  | cons d digits ih =>
    have hd := h d mem_cons_self
    rw [foldl_cons, length_cons, pow_succ']
    calc digits.foldl (fun n d => 16 * n + d) (16 * n + d)
        < (16 * n + d + 1) * 16 ^ digits.length :=
          ih (fun x hx => h x (mem_cons_of_mem d hx)) _
      _ ≤ ((n + 1) * 16) * 16 ^ digits.length := Nat.mul_le_mul_right _ (by omega)
      _ = (n + 1) * (16 * 16 ^ digits.length) := by ring

theorem HexGroup.value_lt (g : HexGroup) : g.value < 65536 := by
  have hdigits : ∀ d ∈ g.text.filterMap JsonText.hexValue, d < 16 := by
    intro d hd
    obtain ⟨u, -, hu⟩ := mem_filterMap.mp hd
    exact hexValue_lt hu
  have hlength : (g.text.filterMap JsonText.hexValue).length ≤ 4 :=
    (length_filterMap_le _ _).trans g.length_le
  calc g.value < (0 + 1) * 16 ^ (g.text.filterMap JsonText.hexValue).length :=
        foldl_digits_lt hdigits 0
    _ ≤ 65536 := by
      rw [Nat.zero_add, Nat.one_mul]
      exact Nat.pow_le_pow_right (by decide) hlength

theorem Ipv4Address.groups_lt : ∀ g ∈ v.groups, g < 65536 := by
  intro g hg
  simp only [groups, mem_cons, not_mem_nil, or_false] at hg
  omega

theorem Groups.values_lt (t : Groups) : ∀ g ∈ t.values, g < 65536 := by
  intro g hg
  rcases mem_append.mp hg with hhex | hdotted
  · obtain ⟨x, -, rfl⟩ := mem_map.mp hhex
    exact x.value_lt
  · obtain ⟨v, -, hv⟩ := mem_flatMap.mp hdotted
    exact v.groups_lt g hv

namespace Ipv6Literal

theorem groups_length (l : Ipv6Literal) : l.groups.length = 8 := by
  cases l with
  | whole groups size => exact size
  | shortened head rest size =>
    simp only [groups, length_append, length_map, length_replicate]
    omega

theorem groups_lt (l : Ipv6Literal) : ∀ g ∈ l.groups, g < 65536 := by
  cases l with
  | whole groups size => exact groups.values_lt
  | shortened head rest size =>
    intro g hg
    rcases mem_append.mp hg with hhead | hrest
    · rcases mem_append.mp hhead with hhead | hzero
      · obtain ⟨x, -, rfl⟩ := mem_map.mp hhead
        exact x.value_lt
      · rw [eq_of_mem_replicate hzero]
        decide
    · exact rest.values_lt g hrest

end Ipv6Literal

/-! ## Addresses that are not to be reached from outside -/

/-- The IPv6 address carries the IPv4 address. -/
inductive Embeds (address : Nat) (v : Ipv4Address) : Prop
  /-- `::ffff:0:0/96` -/
  | mapped (h : InBlock 128 (ofGroups [0, 0, 0, 0, 0, 0xffff, 0, 0]) 96 address)
      (hlow : address % 2 ^ 32 = v.number)
  /-- `::/96` -/
  | compatible (h : InBlock 128 0 96 address) (hlow : address % 2 ^ 32 = v.number)
  /-- `64:ff9b::/96` -/
  | nat64 (h : InBlock 128 (ofGroups [0x64, 0xff9b, 0, 0, 0, 0, 0, 0]) 96 address)
      (hlow : address % 2 ^ 32 = v.number)
  /-- `2002::/16` -/
  | sixToFour (h : InBlock 128 (ofGroups [0x2002, 0, 0, 0, 0, 0, 0, 0]) 16 address)
      (hhigh : address / 2 ^ 80 % 2 ^ 32 = v.number)

inductive Restricted (isPrivate : Ipv4Address → Prop) (address : Nat) : Prop
  | unspecified (h : address = 0)
  | loopback (h : address = 1)
  /-- `fc00::/7` -/
  | uniqueLocal (h : InBlock 128 (ofGroups [0xfc00, 0, 0, 0, 0, 0, 0, 0]) 7 address)
  /-- `fe80::/10` -/
  | linkLocal (h : InBlock 128 (ofGroups [0xfe80, 0, 0, 0, 0, 0, 0, 0]) 10 address)
  /-- `fec0::/10` -/
  | siteLocal (h : InBlock 128 (ofGroups [0xfec0, 0, 0, 0, 0, 0, 0, 0]) 10 address)
  /-- `ff00::/8` -/
  | multicast (h : InBlock 128 (ofGroups [0xff00, 0, 0, 0, 0, 0, 0, 0]) 8 address)
  | embedded (v : Ipv4Address) (h : Embeds address v) (hprivate : isPrivate v)

end RedRouter.Network
