import RedRouter.Compression.DedupFrame

/-!
# What the markers of session-dedup refer to

A marker stands for a block of lines, and a reader of the output finds the
block at its first owner: the first text that ends with it.  `Referenced` says
that this text belongs to an earlier message, and that the block stands in the
part of it that the engine has kept.

The owner of a block can be rewritten itself, for the sake of a shorter block
that an earlier text owns.  The two blocks are ends of the same text, so the
replaced stretch usually goes into the first one, and then the block is nowhere
in the output.  `referenced_iff` says what has to hold of the texts instead.
-/

namespace RedRouter.Compression.SessionDedup

open List

variable {hashBlock : JsString → JsString} {minBlockChars : Nat}

/-! ## First owners -/

def firstOwner (minBlockChars : Nat) (texts : List MsgText) (block : JsString) : Option MsgText :=
  texts.find? fun t => (blocks minBlockChars t.text).contains block

/-- The texts with each of their blocks, in the order of pass 1. -/
def ownedBlocks (minBlockChars : Nat) (texts : List MsgText) : List (MsgText × JsString) :=
  texts.flatMap fun t => (blocks minBlockChars t.text).map fun block => (t, block)

theorem firstSeen_eq_claim (texts : List MsgText) : firstSeen hashBlock minBlockChars texts =
      KeyedStore.claim (fun owned => hashBlock owned.2)
        (fun owned => Owner.mk owned.1.msgIdx owned.2) (ownedBlocks minBlockChars texts) := by
  unfold firstSeen KeyedStore.claim ownedBlocks
  rw [foldl_flatMap]
  congr 1
  funext seen t
  rw [foldl_map]

variable {block : JsString} {texts : List MsgText}

/-- When the first block with a hash is this one, the first text that has it is
the one that claimed the hash. -/
theorem firstOwner_of_find {owner : MsgText} (h : (ownedBlocks minBlockChars texts).find?
      (fun owned => hashBlock owned.2 = hashBlock block) = some (owner, block)) :
    firstOwner minBlockChars texts block = some owner := by
  induction texts with
  | nil => simp [ownedBlocks] at h
  | cons t texts ih =>
    rw [ownedBlocks, flatMap_cons, find?_append] at h
    cases hhere : ((blocks minBlockChars t.text).map fun b => (t, b)).find?
        (fun owned => hashBlock owned.2 = hashBlock block) with
    | some owned =>
      rw [hhere, Option.some_or] at h
      cases h
      obtain ⟨b, hb, heq⟩ := mem_map.mp (mem_of_find?_eq_some hhere)
      cases heq
      simp [firstOwner, hb]
    | none =>
      rw [hhere, Option.none_or] at h
      have hnot : block ∉ blocks minBlockChars t.text := by
        intro hblock
        have hmiss := find?_eq_none.mp hhere (t, block) (mem_map_of_mem hblock)
        simp at hmiss
      rw [firstOwner, find?_cons_of_neg (by simpa using hnot)]
      exact ih h

theorem firstOwner_of_duplicate {turn : Nat} {t : MsgText}
    (h : duplicate hashBlock minBlockChars turn texts t = some block) :
    ∃ owner, firstOwner minBlockChars texts block = some owner := by
  unfold duplicate at h
  split at h
  · cases h
  · have hmem := (mem_insertionSort longerFirst).mp (mem_of_mem_head? h)
    obtain ⟨-, hseen⟩ := mem_filter.mp hmem
    rw [firstSeen_eq_claim, KeyedStore.get_claim] at hseen
    cases hfound : (ownedBlocks minBlockChars texts).find?
        (fun owned => hashBlock owned.2 = hashBlock block) with
    | none =>
      rw [hfound] at hseen
      simp at hseen
    | some owned =>
      rw [hfound] at hseen
      simp only [Option.map_some, decide_eq_true_eq] at hseen
      obtain ⟨owner, b⟩ := owned
      obtain ⟨-, rfl⟩ := hseen
      exact ⟨owner, firstOwner_of_find hfound⟩

theorem mem_of_firstOwner {owner : MsgText} (h : firstOwner minBlockChars texts block = some owner) :
    owner ∈ texts ∧ block ∈ blocks minBlockChars owner.text :=
  ⟨mem_of_find?_eq_some h, by simpa using find?_some h⟩

/-! ## Markers within one text -/

/-- The blocks that the loop of `dedupeWithinMessage` replaces. -/
def replacedWithin (hashBlock : JsString → JsString) (text : JsString) :
    List JsString → List JsString
  | [] => []
  | block :: rest =>
      if countLiteralOccurrences text block < 2 then replacedWithin hashBlock text rest
      else block :: replacedWithin hashBlock
        (replaceLiteralOccurrencesAfterFirst text block (marker hashBlock block)) rest

theorem replacedWithin_eq_nil_iff (order : List JsString) (text : JsString) :
    replacedWithin hashBlock text order = [] ↔
      ∀ block ∈ order, countLiteralOccurrences text block < 2 := by
  induction order with
  | nil => simp [replacedWithin]
  | cons block order ih =>
    rw [replacedWithin, forall_mem_cons]
    split
    · rename_i hfew
      rw [ih]
      exact ⟨fun h => ⟨hfew, h⟩, fun h => h.2⟩
    · rename_i hmany
      exact iff_of_false (by simp) fun h => hmany h.1

/-! ## Markers and the blocks they refer to -/

/-- The marker of the block is put into the text. -/
inductive Inserted (hashBlock : JsString → JsString) (minBlockChars : Nat)
    (messages : List Message) (t : MsgText) (block : JsString) : Prop where
  | alone (hone : msgTexts messages = [t]) (hblocks : 2 ≤ (blocks minBlockChars t.text).length)
      (hreplaced : block ∈ replacedWithin hashBlock t.text
        (sortedBlocks (blocks minBlockChars t.text)))
  | among (hseveral : (msgTexts messages).length ≠ 1) (ht : t ∈ msgTexts messages)
      (hduplicate : duplicate hashBlock minBlockChars (currentTurnStart messages)
        (msgTexts messages) t = some block)

/-- The end `block` of the text is in the part that is kept. -/
def Intact (hashBlock : JsString → JsString) (text result block : JsString) : Prop :=
  result = text ∨ ∃ before replaced rest, text = before ++ (replaced ++ rest) ∧
    result = before ++ (marker hashBlock replaced ++ rest) ∧ block <:+ rest

/-- Every marker refers to a block that its first owner, in an earlier message,
still has in the output. -/
def Referenced (hashBlock : JsString → JsString) (minBlockChars : Nat) (messages : List Message) :
    Prop :=
  ∀ t block, Inserted hashBlock minBlockChars messages t block → ∃ owner after,
      (owner, after) ∈ (msgTexts messages).zip
        (msgTexts (processMessages hashBlock messages minBlockChars).1) ∧
      firstOwner minBlockChars (msgTexts messages) block = some owner ∧
      owner.messageIndex < t.messageIndex ∧ Intact hashBlock owner.text after.text block

variable {text : JsString}

theorem Intact.suffix {result : JsString} (h : Intact hashBlock text result block)
    (hblock : block <:+ text) : block <:+ result := by
  obtain rfl | ⟨before, replaced, rest, -, rfl, hrest⟩ := h
  · exact hblock
  · exact hrest.trans ((suffix_append _ _).trans (suffix_append _ _))

variable {replaced : JsString}

theorem intact_of_before {idx : Nat} (hblock : block <:+ text)
    (hidx : JsString.indexOf replaced text = some idx)
    (hbefore : idx + replaced.length + block.length ≤ text.length) :
    Intact hashBlock text (replaceBlock hashBlock text replaced) block := by
  obtain ⟨hsplit, -⟩ := JsString.split_of_indexOf hidx
  refine .inr ⟨text.take idx, replaced, text.drop (idx + replaced.length), hsplit, ?_, ?_⟩
  · simp [replaceBlock, hidx]
  · refine suffix_of_suffix_length_le hblock (drop_suffix _ _) ?_
    rw [length_drop]
    omega

/-! ## A stretch that goes into the block -/

/-- The hash is written in lower-case hexadecimal digits. -/
def HexDigest (hashBlock : JsString → JsString) : Prop :=
  ∀ block, ∀ c ∈ hashBlock block, unit '0' ≤ c ∧ c ≤ unit '9' ∨ unit 'a' ≤ c ∧ c ≤ unit 'f'

/-- A marker before its closing bracket. -/
def markerBody (hashBlock : JsString → JsString) (block : JsString) : JsString :=
  js "[dedup:ref sha=" ++ hashBlock block

theorem marker_eq (block : JsString) :
    marker hashBlock block = markerBody hashBlock block ++ [unit ']'] := rfl

section

variable (hhex : HexDigest hashBlock)
include hhex

/-- A marker is one line, and its only closing bracket is the last unit. -/
theorem not_mem_markerBody (block : JsString) :
    newline ∉ markerBody hashBlock block ∧ unit ']' ∉ markerBody hashBlock block := by
  have hdigit : ∀ c, ¬ (unit '0' ≤ c ∧ c ≤ unit '9' ∨ unit 'a' ≤ c ∧ c ≤ unit 'f') →
      c ∉ js "[dedup:ref sha=" → c ∉ markerBody hashBlock block := by
    intro c hno htext hmem
    obtain hmem | hmem := mem_append.mp hmem
    · exact htext hmem
    · exact hno (hhex block c hmem)
  exact ⟨hdigit newline (by decide) (by decide), hdigit (unit ']') (by decide) (by decide)⟩

theorem newline_not_mem_marker (block : JsString) : newline ∉ marker hashBlock block := by
  rw [marker_eq, mem_append, not_or]
  exact ⟨(not_mem_markerBody hhex block).1, by decide⟩

theorem not_suffix_of_marker (hlines : newline ∈ replaced)
    (hself : ¬ marker hashBlock replaced <:+ replaced) (h : replaced <:+ text) :
    ¬ marker hashBlock replaced <:+ text := by
  intro hmarker
  by_cases hlength : (marker hashBlock replaced).length ≤ replaced.length
  · exact hself (suffix_of_suffix_length_le hmarker h hlength)
  · have hinside := suffix_of_suffix_length_le h hmarker (by omega)
    exact newline_not_mem_marker hhex replaced (hinside.subset hlines)

/-- A part of a marker that begins it and is not the whole does not end with
another marker. -/
theorem append_marker_ne {other before begin u rest : JsString}
    (hmarker : marker hashBlock block = begin ++ rest) (hbegin : begin ≠ []) (hrest : rest ≠ []) :
    before ++ begin ≠ u ++ marker hashBlock other := by
  intro heq
  have hlast : begin.getLast hbegin = unit ']' := by
    have hends := congrArg List.getLast? heq
    rw [marker_eq, ← append_assoc, getLast?_concat,
      getLast?_append_of_ne_nil _ hbegin, getLast?_eq_some_getLast hbegin] at hends
    exact Option.some.inj hends
  have hbody : begin <+: markerBody hashBlock block := by
    rw [← dropLast_append_getLast hrest, ← append_assoc] at hmarker
    exact ⟨rest.dropLast, (append_inj_left' hmarker rfl).symm⟩
  have hmem : unit ']' ∈ markerBody hashBlock block := by
    rw [← hlast]
    exact hbody.subset (getLast_mem hbegin)
  exact (not_mem_markerBody hhex block).2 hmem

/-- A block that is intact stands after the stretch that was replaced. -/
theorem before_of_intact {idx : Nat} (hlines : newline ∈ replaced)
    (hself : ¬ marker hashBlock replaced <:+ replaced)
    (hidx : JsString.indexOf replaced text = some idx)
    (h : Intact hashBlock text (replaceBlock hashBlock text replaced) block) :
    idx + replaced.length + block.length ≤ text.length := by
  obtain ⟨hsplit, hend⟩ := JsString.split_of_indexOf hidx
  have hresult : replaceBlock hashBlock text replaced =
      text.take idx ++ (marker hashBlock replaced ++ text.drop (idx + replaced.length)) := by
    simp [replaceBlock, hidx]
  have hlength : (text.drop (idx + replaced.length)).length =
      text.length - (idx + replaced.length) := length_drop
  rw [hresult] at h
  generalize text.take idx = before at hsplit h
  generalize text.drop (idx + replaced.length) = rest at hsplit h hlength
  by_contra hover
  obtain hsame | ⟨u, other, w, htext, hafter, hblock⟩ := h
  · rw [hsplit, append_cancel_left_eq, append_cancel_right_eq] at hsame
    rw [← hsame] at hlines
    exact newline_not_mem_marker hhex replaced hlines
  · -- what follows the other marker begins inside the stretch
    have hw := hblock.length_le
    have hrest : rest <:+ text := ⟨before ++ replaced, by rw [hsplit, append_assoc]⟩
    have hwhole : w <:+ text := ⟨u ++ other, by rw [htext, append_assoc]⟩
    obtain ⟨y, rfl⟩ := suffix_of_suffix_length_le hrest hwhole (by omega)
    have hy : y ≠ [] := by
      rintro rfl
      simp only [nil_append] at hw
      omega
    have hold : before ++ replaced = u ++ other ++ y := by
      rw [hsplit] at htext
      simpa only [← append_assoc, append_cancel_right_eq] using htext
    have hnew : before ++ marker hashBlock replaced = u ++ marker hashBlock other ++ y := by
      simpa only [← append_assoc, append_cancel_right_eq] using hafter
    by_cases hlong : (marker hashBlock replaced).length ≤ y.length
    · have hinside : marker hashBlock replaced <:+ y := suffix_of_suffix_length_le
        ⟨before, hnew⟩ (suffix_append _ _) hlong
      refine not_suffix_of_marker hhex hlines hself (suffix_append before replaced) ?_
      rw [hold]
      exact hinside.trans (suffix_append _ _)
    · have hpart : y <:+ marker hashBlock replaced := suffix_of_suffix_length_le
        ⟨u ++ marker hashBlock other, hnew.symm⟩ (suffix_append _ _) (by omega)
      obtain ⟨begin, hbegin⟩ := hpart
      rw [← hbegin, ← append_assoc, append_cancel_right_eq] at hnew
      refine append_marker_ne hhex hbegin.symm ?_ hy hnew
      rintro rfl
      rw [nil_append] at hbegin
      rw [hbegin] at hlong
      omega

end

/-! ## When every marker is good -/

/-- What has to hold of the texts: a text that is alone has no block twice, and
the first owner of each block that is replaced belongs to an earlier message and
is not rewritten itself up to the block. -/
structure OwnersKept (hashBlock : JsString → JsString) (minBlockChars : Nat)
    (messages : List Message) : Prop where
  alone : ∀ t, msgTexts messages = [t] → (blocks minBlockChars t.text).length < 2 ∨
    ∀ block ∈ blocks minBlockChars t.text, countLiteralOccurrences t.text block < 2
  among : (msgTexts messages).length ≠ 1 → ∀ t ∈ msgTexts messages, ∀ block,
    duplicate hashBlock minBlockChars (currentTurnStart messages) (msgTexts messages) t =
      some block →
    ∀ owner, firstOwner minBlockChars (msgTexts messages) block = some owner →
      owner.messageIndex < t.messageIndex ∧
      ∀ replaced idx, duplicate hashBlock minBlockChars (currentTurnStart messages)
          (msgTexts messages) owner = some replaced →
        JsString.indexOf replaced owner.text = some idx →
        idx + replaced.length + block.length ≤ owner.text.length

theorem mem_zip_msgTexts {messages : List Message} {t after : MsgText} :
    (t, after) ∈ (msgTexts messages).zip
        (msgTexts (processMessages hashBlock messages minBlockChars).1) ↔
      t ∈ msgTexts messages ∧
        after = { t with text := textAfter hashBlock minBlockChars messages t } := by
  rw [msgTexts_processMessages, ← map_prod_left_eq_zip]
  simp only [mem_map, Prod.mk.injEq]
  constructor
  · rintro ⟨t', ht', rfl, rfl⟩
    exact ⟨ht', rfl⟩
  · rintro ⟨ht, rfl⟩
    exact ⟨t, ht, rfl, rfl⟩

theorem newText_of_several (h : texts.length ≠ 1) (turn : Nat) (t : MsgText) :
    newText hashBlock minBlockChars turn texts t =
      (duplicate hashBlock minBlockChars turn texts t).map (replaceBlock hashBlock t.text) := by
  unfold newText
  split
  · exact absurd length_singleton h
  · rfl

/-- Every marker refers to a block that is kept in an earlier message exactly
when the owners are kept. -/
theorem referenced_iff (hashBlock : JsString → JsString) (minBlockChars : Nat)
    (messages : List Message) (hkeys : KeysApart hashBlock minBlockChars messages) :
    (OwnersKept hashBlock minBlockChars messages → Referenced hashBlock minBlockChars messages) ∧
      (HexDigest hashBlock → (∀ t ∈ msgTexts messages, ∀ block ∈ blocks minBlockChars t.text,
          ¬ marker hashBlock block <:+ block) →
        Referenced hashBlock minBlockChars messages →
        OwnersKept hashBlock minBlockChars messages) := by
  have hown := own_of_keysApart hkeys
  constructor
  · rintro hkept t block (⟨hone, hblocks, hreplaced⟩ | ⟨hseveral, ht, hduplicate⟩)
    · obtain hfew | hfew := hkept.alone t hone
      · omega
      · have hnil : replacedWithin hashBlock t.text
            (sortedBlocks (blocks minBlockChars t.text)) = [] := by
          rw [replacedWithin_eq_nil_iff]
          exact fun b hb => hfew b ((mem_insertionSort _).mp hb)
        rw [hnil] at hreplaced
        simp at hreplaced
    · obtain ⟨owner, howner⟩ := firstOwner_of_duplicate hduplicate
      obtain ⟨hmem, hblock⟩ := mem_of_firstOwner howner
      obtain ⟨hearlier, hbefore⟩ := hkept.among hseveral t ht block hduplicate owner howner
      refine ⟨owner, _, mem_zip_msgTexts.mpr ⟨hmem, rfl⟩, howner, hearlier, ?_⟩
      rw [textAfter_of_own hown hmem, newText_of_several hseveral]
      cases hrewritten : duplicate hashBlock minBlockChars (currentTurnStart messages)
          (msgTexts messages) owner with
      | none => exact .inl rfl
      | some replaced =>
        obtain ⟨idx, hidx⟩ := indexOf_of_mem_blocks (mem_blocks_of_duplicate hrewritten)
        exact intact_of_before (mem_blocks hblock).1 hidx (hbefore replaced idx hrewritten hidx)
  · intro hhex hself hreferenced
    refine ⟨?_, ?_⟩
    · intro t hone
      by_contra hmany
      rw [not_or, Nat.not_lt] at hmany
      obtain ⟨hblocks, htwice⟩ := hmany
      have hne : replacedWithin hashBlock t.text
          (sortedBlocks (blocks minBlockChars t.text)) ≠ [] := by
        rw [Ne, replacedWithin_eq_nil_iff]
        exact fun h => htwice fun b hb => h b ((mem_insertionSort _).mpr hb)
      obtain ⟨block, hblock⟩ := exists_mem_of_ne_nil _ hne
      obtain ⟨owner, after, hpair, -, hearlier, -⟩ :=
        hreferenced t block (.alone hone hblocks hblock)
      have hmem := (mem_zip_msgTexts.mp hpair).1
      rw [hone, mem_singleton] at hmem
      rw [hmem] at hearlier
      omega
    · intro hseveral t ht block hduplicate owner howner
      obtain ⟨owner', after, hpair, howner', hearlier, hintact⟩ :=
        hreferenced t block (.among hseveral ht hduplicate)
      rw [howner] at howner'
      cases howner'
      refine ⟨hearlier, ?_⟩
      intro replaced idx hrewritten hidx
      obtain ⟨hmem, rfl⟩ := mem_zip_msgTexts.mp hpair
      have hreplaced := mem_blocks_of_duplicate hrewritten
      rw [textAfter_of_own hown hmem, newText_of_several hseveral, hrewritten] at hintact
      exact before_of_intact hhex (mem_blocks hreplaced).2 (hself owner hmem replaced hreplaced)
        hidx hintact

/-- The SHA-256 prefixes of two blocks. -/
def countHash (block : JsString) : JsString :=
  if block = js "1\n2\n3" then js "ad53e8806d17c82d38902738" else js "db7cfa416d2d56dd5dbf7934"

/-- A text that comes twice, before an answer. -/
def repeatedText : List Message :=
  [{ role := some (js "user"), content := .text (js "1\n2\n3") },
   { role := some (js "assistant"), content := .text (js "ok") },
   { role := some (js "user"), content := .text (js "1\n2\n3") },
   { role := some (js "assistant"), content := .text (js "y") }]

/-- The marker of the second text refers to the first one. -/
theorem referenced_iff_repeatedText : Referenced countHash 1 repeatedText ∧
      Inserted countHash 1 repeatedText ⟨2, 2, js "1\n2\n3"⟩ (js "1\n2\n3") := by
  have hkeys : KeysApart countHash 1 repeatedText := by
    unfold KeysApart HasDuplicate
    decide
  have hseveral : (msgTexts repeatedText).length ≠ 1 := by decide
  have hkept : ∀ t ∈ msgTexts repeatedText, ∀ block ∈ duplicate countHash 1
      (currentTurnStart repeatedText) (msgTexts repeatedText) t,
      ∀ owner ∈ firstOwner 1 (msgTexts repeatedText) block, owner.messageIndex < t.messageIndex ∧
        duplicate countHash 1 (currentTurnStart repeatedText) (msgTexts repeatedText) owner =
          none := by
    decide
  refine ⟨(referenced_iff countHash 1 repeatedText hkeys).1 ⟨?_, ?_⟩, ?_⟩
  · intro t hone
    exact absurd (congrArg List.length hone) hseveral
  · intro _ t ht block hduplicate owner howner
    obtain ⟨hearlier, hnone⟩ := hkept t ht block hduplicate owner howner
    refine ⟨hearlier, ?_⟩
    intro replaced idx hrewritten
    rw [hnone] at hrewritten
    cases hrewritten
  · exact .among hseveral (by decide) (by decide)

/-- The second text is longer than the first by a line, and the third repeats
it. -/
def overlappingBlocks : List Message :=
  [{ role := some (js "user"), content := .text (js "1\n2\n3") },
   { role := some (js "assistant"), content := .text (js "x\n1\n2\n3") },
   { role := some (js "user"), content := .text (js "x\n1\n2\n3") },
   { role := some (js "assistant"), content := .text (js "y") }]

/-- The third text becomes the marker of a block that the second one has lost
to a marker of its own. -/
theorem not_referenced_overlappingBlocks :
    ¬ ∀ (hashBlock : JsString → JsString) (minBlockChars : Nat) (messages : List Message),
      (∀ owned ∈ ownedBlocks minBlockChars (msgTexts messages),
        ∀ owned' ∈ ownedBlocks minBlockChars (msgTexts messages),
          hashBlock owned.2 = hashBlock owned'.2 → owned.2 = owned'.2) →
      Referenced hashBlock minBlockChars messages := by
  intro h
  have hinserted : Inserted countHash 1 overlappingBlocks ⟨2, 2, js "x\n1\n2\n3"⟩
      (js "x\n1\n2\n3") := .among (by decide) (by decide) (by decide)
  obtain ⟨owner, after, hpair, howner, -, hintact⟩ :=
    h countHash 1 overlappingBlocks (by decide) _ _ hinserted
  have hfirst : firstOwner 1 (msgTexts overlappingBlocks) (js "x\n1\n2\n3") =
      some ⟨1, 1, js "x\n1\n2\n3"⟩ := by decide
  cases howner
  have hafter : ∀ pair ∈ (msgTexts overlappingBlocks).zip
      (msgTexts (processMessages countHash overlappingBlocks 1).1), pair.1.msgIdx = 1 →
      pair.2.text.includes (js "x\n1\n2\n3") = false := by decide
  have hlost := (JsString.includes_eq_false_iff _ _).mp (hafter _ hpair rfl)
  exact hlost (hintact.suffix (suffix_refl _)).isInfix

end RedRouter.Compression.SessionDedup
