import Mathlib.Data.Nat.Digits.Defs
import RedRouter.Lib.JsonText
import RedRouter.Lib.RegexPlain
import RedRouter.Lib.Separators
import RedRouter.Lib.TextSplit

/-!
# Private hosts

The model of `shared/network/privateHost.ts`, and of `isCloudMetadataHost` from
`shared/network/outboundUrlGuard.ts`: which hosts are private, and which are the
metadata endpoint of a cloud, however they are spelled.
-/

namespace RedRouter.Network

open JsString Regex Pattern

/-- `toLowerCase` follows the Unicode tables.  ASCII text has its letters in lower
case. -/
structure LowerCase where
  toLowerCase : JsString → JsString
  ascii : ∀ s, (∀ u ∈ s, u < 128) → toLowerCase s = s.map asciiLower

/-! ## Numbers and texts -/

/-- `parseInt(text, radix)` for a text without white space, sign and `0x`, with
`none` for `NaN`. -/
def parseInt (radix : Nat) (text : JsString) : Option Nat :=
  let digits := (text.takeWhile fun u => (JsonText.hexValue u).any (· < radix)).filterMap
    JsonText.hexValue
  if digits = [] then none else some (digits.foldl (fun n d => radix * n + d) 0)

/-- `n.toString(16)`. -/
def toString16 (n : Nat) : JsString :=
  if n = 0 then js "0" else (Nat.digits 16 n).reverse.map JsValue.hexDigit

/-! ## The patterns -/

def range (first last : Char) : Pattern := .unit fun u => unit first ≤ u && u ≤ unit last

/-- `\d`. -/
def digit : Pattern := range '0' '9'

def v4Seg : Pattern :=
  alt (cat [lit (js "25"), range '0' '5']) (alt (cat [lit (js "2"), range '0' '4', digit])
      (alt (cat [lit (js "1"), digit, digit]) (cat [opt (range '1' '9'), digit])))

def v4Str : Pattern := times (cat [v4Seg, lit (js ".")]) v4Seg 3

/-- `[0-9a-fA-F]`. -/
def hexUnit : Pattern :=
  .unit fun u => (unit '0' ≤ u && u ≤ unit '9') || (unit 'a' ≤ u && u ≤ unit 'f') ||
    (unit 'A' ≤ u && u ≤ unit 'F')

def v6Seg : Pattern := cat [hexUnit, upTo true hexUnit 3]

def ipv4Re : Pattern := whole v4Str

/-- `${V6_SEG}:`. -/
def segColon : Pattern := cat [v6Seg, lit (js ":")]

/-- `:${V6_SEG}`. -/
def colonSeg : Pattern := cat [lit (js ":"), v6Seg]

/-- `(?::${V6_SEG}){0,n}:${V4_STR}|(?::${V6_SEG}){1,n+2}|:`, what may follow the
segments before a `::`. -/
def shortened (n : Nat) : Pattern :=
  alt (cat [upTo true colonSeg n, lit (js ":"), v4Str])
    (alt (cat [colonSeg, upTo true colonSeg (n + 1)]) (lit (js ":")))

/-- `[0-9a-zA-Z-.:]`. -/
def zoneUnit : Pattern :=
  .unit fun u => (unit '0' ≤ u && u ≤ unit '9') || (unit 'a' ≤ u && u ≤ unit 'z') ||
    (unit 'A' ≤ u && u ≤ unit 'Z') || u == unit '-' || u == unit '.' || u == unit ':'

/-- The alternatives of `IPV6_RE`. -/
def v6Str : Pattern :=
  alt (times segColon (alt v6Seg (lit (js ":"))) 7)
    (alt (times segColon (alt v4Str (alt colonSeg (lit (js ":")))) 6)
      (alt (times segColon (shortened 0) 5) (alt (times segColon (shortened 1) 4)
          (alt (times segColon (shortened 2) 3) (alt (times segColon (shortened 3) 2)
              (alt (times segColon (shortened 4) 1) (cat [lit (js ":"), shortened 5])))))))

/-- `%[0-9a-zA-Z-.:]{1,64}`. -/
def zoneStr : Pattern := cat [lit (js "%"), zoneUnit, upTo true zoneUnit 63]

def ipv6Re : Pattern := whole (cat [v6Str, opt zoneStr])

def maxIpLiteralLength : Nat := 110

def ipVersion (host : JsString) : Nat :=
  if host = [] || host.length > maxIpLiteralLength then 0
  else if test ipv4Re host then 4
  else if test ipv6Re host then 6
  else 0

/-! ## The groups of a literal -/

def normalizeHost (unicode : LowerCase) (hostname : JsString) : JsString :=
  let normalized := unicode.toLowerCase (trim hostname)
  if startsWith normalized (js "[") && endsWith normalized (js "]") then
    (normalized.drop 1).dropLast
  else if endsWith normalized (js ".") then normalized.dropLast
  else normalized

/-- The dotted tail as two groups.  A literal that is accepted has four numbers
there. -/
def foldDottedTail (text : JsString) : JsString :=
  let (before, tail) :=
    match Separators.cutLast (unit ':') text with
    | some (before, tail) => (before ++ js ":", tail)
    | none => ([], text)
  if includes tail (js ".") then
    match (tail.splitOn (unit '.')).map (parseInt 10) with
    | [some a, some b, some c, some d] =>
        before ++ toString16 (a <<< 8 ||| b) ++ js ":" ++ toString16 (c <<< 8 ||| d)
    | _ => text
  else text

/-- `text ? text.split(":") : []`. -/
def splitGroups (text : JsString) : List JsString :=
  if text = [] then [] else text.splitOn (unit ':')

/-- The texts of the groups, with those that `::` leaves out. -/
def expandGroups (text : JsString) : Option (List JsString) :=
  match TextSplit.split (js "::") text with
  | [whole] => if (splitGroups whole).length = 8 then some (splitGroups whole) else none
  | [head, rest] =>
      let head := splitGroups head
      let rest := splitGroups rest
      if head.length + rest.length ≤ 8 then
        some (head ++ List.replicate (8 - head.length - rest.length) (js "0") ++ rest)
      else none
  | _ => none

def ipv6Hextets (host : JsString) : Option (List Nat) :=
  if ipVersion host ≠ 6 then none
  else
    let text := foldDottedTail (((host.splitOn (unit '%')).head?).getD [])
    match (expandGroups text).bind fun groups => groups.mapM (parseInt 16) with
    | some hextets => if hextets.length = 8 && hextets.all (· ≤ 0xffff) then some hextets else none
    | none => none

def dottedQuad (high low : Nat) : JsString :=
  ofNat (high >>> 8) ++ js "." ++ ofNat (high &&& 0xff) ++ js "." ++ ofNat (low >>> 8) ++
    js "." ++ ofNat (low &&& 0xff)

def embeddedIpv4FromHextets (hextets : List Nat) (mappedOnly : Bool) : Option JsString :=
  let hextet := fun i => hextets.getD i 0
  let leadingZeros := fun count => (hextets.take count).all (· == 0)
  if leadingZeros 5 && hextet 5 == 0xffff then some (dottedQuad (hextet 6) (hextet 7))
  else if mappedOnly then none
  else if leadingZeros 6 && !(hextet 6 == 0 && hextet 7 ≤ 1) then
    some (dottedQuad (hextet 6) (hextet 7))
  else if hextet 0 == 0x64 && hextet 1 == 0xff9b && ((hextets.take 6).drop 2).all (· == 0) then
    some (dottedQuad (hextet 6) (hextet 7))
  else if hextet 0 == 0x2002 then some (dottedQuad (hextet 1) (hextet 2))
  else none

variable (unicode : LowerCase) (hostname : JsString)

def embeddedIpv4Host (mappedOnly : Bool) : Option JsString :=
  (ipv6Hextets (normalizeHost unicode hostname)).bind fun hextets =>
    embeddedIpv4FromHextets hextets mappedOnly

def isSameIpv6Address (a b : JsString) : Bool :=
  match ipv6Hextets (normalizeHost unicode a), ipv6Hextets (normalizeHost unicode b) with
  | some first, some second => first.zipIdx.all fun (value, index) => some value == second[index]?
  | _, _ => false

/-! ## The verdicts -/

def isPrivateName (normalized : JsString) : Bool :=
  normalized == js "localhost" || normalized == js "0.0.0.0" || normalized == js "::" ||
    normalized == js "127.0.0.1" || normalized == js "::1" ||
    endsWith normalized (js ".localhost") || endsWith normalized (js ".local") ||
    endsWith normalized (js ".internal") || startsWith normalized (js "::ffff:")

def isPrivateOctets (a b c d : Nat) : Bool :=
  (a == 0 || a == 10 || a == 127) || (a == 169 && b == 254) || (a == 192 && b == 168) ||
    (a == 172 && 16 ≤ b && b ≤ 31) || (a == 100 && 64 ≤ b && b ≤ 127) ||
    (a == 192 && b == 0 && c == 0) || (224 ≤ a && a ≤ 239) ||
    (a == 168 && b == 63 && c == 129 && d == 16)

def isPrivateHextets (hextets : List Nat) : Bool :=
  let first := hextets.getD 0 0
  ((hextets.take 7).all (· == 0) && hextets.getD 7 0 ≤ 1) ||
    first &&& 0xfe00 == 0xfc00 || first &&& 0xffc0 == 0xfe80 || first &&& 0xffc0 == 0xfec0 ||
    first >>> 8 == 0xff

/-- `isPrivateHost`, which calls itself on an embedded IPv4 address.  That embeds
none, so that two rounds are enough. -/
def isPrivateHostIn : Nat → JsString → Bool
  | 0, _ => false
  | rounds + 1, hostname =>
      let normalized := normalizeHost unicode hostname
      if normalized = [] then true
      else if isPrivateName normalized then true
      else if ipVersion normalized = 4 then
        match (normalized.splitOn (unit '.')).map (parseInt 10) with
        | [some a, some b, some c, some d] => isPrivateOctets a b c d
        | _ => false
      else
        match ipv6Hextets normalized with
        | some hextets =>
            (embeddedIpv4FromHextets hextets false).any (isPrivateHostIn rounds) ||
              isPrivateHextets hextets
        | none => false

def isPrivateHost : Bool := isPrivateHostIn unicode 2 hostname

def cloudMetadataHostnames : List JsString := [ "169.254.169.254", "metadata.google.internal",
    "metadata.goog",
    "100.100.100.200",
    "168.63.129.16",
    "192.0.0.192"].map js

def awsIpv6Imds : JsString := js "fd00:ec2::254"

def isCloudMetadataIpv4 (host : JsString) : Bool :=
  cloudMetadataHostnames.contains host || startsWith host (js "169.254.")

def isCloudMetadataHost : Bool :=
  let host := normalizeHost unicode hostname
  if host = [] then false
  else if isCloudMetadataIpv4 host then true
  else if isSameIpv6Address unicode host awsIpv6Imds then true
  else (embeddedIpv4Host unicode host false).any isCloudMetadataIpv4

end RedRouter.Network
