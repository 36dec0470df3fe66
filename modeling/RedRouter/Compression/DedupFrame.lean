import Mathlib.Logic.Relation
import RedRouter.Compression.SessionDedup

/-!
# What the session-dedup engine leaves alone

The engine writes the replaced texts into a map under numeric keys, and each
text of the messages takes what it finds under its own key.  A string content
has its message index as the key and a part `i * 100000 + p + 1`, so the parts
of the first message have the keys of the string contents after it, and a part
from 100000 on has a key of the next message.

`Framed` says that the engine changes nothing but texts, that no text finds
what was made from another one, and that a text is changed by markers for its
own suffix blocks only.  `framed_iff` says when it holds: no text that is
rewritten shares its key with a text of another message.
-/

namespace RedRouter.Compression.SessionDedup

open List

variable {hashBlock : JsString → JsString} {minBlockChars : Nat}

/-! ## Suffix blocks -/

variable {rest : List JsString}

theorem join_cons {line : JsString} (h : rest ≠ []) :
    JsString.join [newline] (line :: rest) = line ++ newline :: JsString.join [newline] rest := by
  obtain ⟨next, rest, rfl⟩ := exists_cons_of_ne_nil h
  simp [JsString.join]

theorem join_suffix {all : List JsString} (h : rest <:+ all) (hne : rest ≠ []) :
    JsString.join [newline] rest <:+ JsString.join [newline] all := by
  induction all with
  | nil => rw [suffix_nil.mp h]
  | cons line all ih =>
    obtain heq | hrest := suffix_cons_iff.mp h
    · rw [heq]
    · have hall : all ≠ [] := by
        rintro rfl
        exact hne (suffix_nil.mp hrest)
      rw [join_cons hall]
      exact (ih hrest).trans ⟨line ++ [newline], by simp⟩

variable {block : JsString}

theorem mem_suffixBlocksFrom {starts total : Nat} {seen : List JsString}
    (h : block ∈ suffixBlocksFrom minBlockChars starts rest seen total) :
    ∃ tail, tail <:+ rest ∧ minBlockLines ≤ tail.length ∧ block = JsString.join [newline] tail := by
  induction starts generalizing rest seen total with
  | zero => simp [suffixBlocksFrom] at h
  | succ starts ih =>
    cases rest with
    | nil => simp [suffixBlocksFrom] at h
    | cons line rest =>
      rw [suffixBlocksFrom] at h
      split at h
      · rename_i hlong
        obtain rfl | hlater := mem_cons.mp h
        · exact ⟨line :: rest, suffix_refl _, hlong.1, rfl⟩
        · split at hlater
          · simp at hlater
          · obtain ⟨tail, htail, hblock⟩ := ih hlater
            exact ⟨tail, htail.trans (suffix_cons line rest), hblock⟩
      · obtain ⟨tail, htail, hblock⟩ := ih h
        exact ⟨tail, htail.trans (suffix_cons line rest), hblock⟩

variable {text : JsString}

theorem mem_blocks (h : block ∈ blocks minBlockChars text) : block <:+ text ∧ newline ∈ block := by
  obtain ⟨tail, htail, hlong, rfl⟩ := mem_suffixBlocksFrom h
  have hwhole : JsString.join [newline] (lines text) = text := intercalate_splitOn newline
  have hlength : 2 ≤ tail.length := Nat.le_trans (by decide) hlong
  obtain ⟨line, rest, rfl⟩ : ∃ line rest, tail = line :: rest :=
    exists_cons_of_length_pos (by omega)
  refine ⟨?_, ?_⟩
  · have hsuffix := join_suffix htail (by simp)
    rwa [hwhole] at hsuffix
  · rw [join_cons (by rintro rfl; simp at hlength)]
    simp

/-! ## Replacements -/

def ReplacesOne (hashBlock : JsString → JsString) (blocks : List JsString) (text result : JsString) :
    Prop :=
  ∃ block ∈ blocks, ∃ before after,
    text = before ++ (block ++ after) ∧ result = before ++ (marker hashBlock block ++ after)

def Replaces (hashBlock : JsString → JsString) (blocks : List JsString) :
    JsString → JsString → Prop :=
  Relation.ReflTransGen (ReplacesOne hashBlock blocks)

theorem ReplacesOne.append {blocks : List JsString} {result : JsString} (before : JsString)
    (h : ReplacesOne hashBlock blocks text result) :
    ReplacesOne hashBlock blocks (before ++ text) (before ++ result) := by
  obtain ⟨block, hblock, u, w, rfl, rfl⟩ := h
  exact ⟨block, hblock, before ++ u, w, by simp, by simp⟩

theorem Replaces.append {blocks : List JsString} {result : JsString} (before : JsString)
    (h : Replaces hashBlock blocks text result) :
    Replaces hashBlock blocks (before ++ text) (before ++ result) :=
  Relation.ReflTransGen.lift (before ++ ·) (fun _ _ => ReplacesOne.append before) _ _ h

variable {bs : List JsString}

theorem replacesOne_of_indexOf {idx : Nat} (hblock : block ∈ bs)
    (h : JsString.indexOf block text = some idx) :
    ReplacesOne hashBlock bs text
      (text.take idx ++ marker hashBlock block ++ text.drop (idx + block.length)) := by
  obtain ⟨hsplit, -⟩ := JsString.split_of_indexOf h
  exact ⟨block, hblock, text.take idx, text.drop (idx + block.length), hsplit, by simp⟩

theorem replaces_replaceFrom (hblock : block ∈ bs) (fuel : Nat) (rest : JsString) :
    Replaces hashBlock bs rest (replaceFrom block (marker hashBlock block) fuel rest) := by
  induction fuel generalizing rest with
  | zero => exact .refl
  | succ fuel ih =>
    rw [replaceFrom]
    cases hfound : JsString.indexOf block rest with
    | none => exact .refl
    | some idx =>
      exact .head (replacesOne_of_indexOf hblock hfound)
        ((ih (rest.drop (idx + block.length))).append _)

theorem replaces_afterFirst (hblock : block ∈ bs) (text : JsString) : Replaces hashBlock bs text
      (replaceLiteralOccurrencesAfterFirst text block (marker hashBlock block)) := by
  unfold replaceLiteralOccurrencesAfterFirst
  split
  · exact .refl
  · split
    · exact .refl
    · rename_i first _
      have hrest : Replaces hashBlock bs (text.drop (first + block.length)) _ :=
        replaces_replaceFrom hblock text.length _
      have hall := hrest.append (text.take (first + block.length))
      rwa [take_append_drop] at hall

theorem replaces_within {order : List JsString} (horder : ∀ block ∈ order, block ∈ bs)
    (state : JsString × Bool) :
    Replaces hashBlock bs state.1 (order.foldl (withinStep hashBlock) state).1 := by
  induction order generalizing state with
  | nil => exact .refl
  | cons block order ih =>
    have hstep : Replaces hashBlock bs state.1 (withinStep hashBlock state block).1 := by
      unfold withinStep
      split
      · exact .refl
      · exact replaces_afterFirst (horder block mem_cons_self) state.1
    exact hstep.trans (ih (fun b hb => horder b (mem_cons_of_mem _ hb)) _)

theorem replaces_dedupeWithinMessage (text : JsString) :
    Replaces hashBlock (blocks minBlockChars text) text
      (dedupeWithinMessage hashBlock text minBlockChars).1 := by
  unfold dedupeWithinMessage
  dsimp only
  split
  · exact .refl
  · refine replaces_within ?_ (text, false)
    intro block hblock
    exact (mem_insertionSort _).mp hblock

/-! ## What is made of a text -/

/-- The block that pass 2 replaces in a text. -/
def duplicate (hashBlock : JsString → JsString) (minBlockChars currentTurnStart : Nat)
    (texts : List MsgText) (t : MsgText) : Option JsString :=
  if t.messageIndex ≥ currentTurnStart then none
  else ((dupBlocks hashBlock minBlockChars (firstSeen hashBlock minBlockChars texts) t).insertionSort
    longerFirst).head?

def replaceBlock (hashBlock : JsString → JsString) (text block : JsString) : JsString :=
  let idx := (JsString.indexOf block text).getD 0
  text.take idx ++ marker hashBlock block ++ text.drop (idx + block.length)

variable {t : MsgText}

theorem mem_blocks_of_mem_dupBlocks {seen : JsMap JsString Owner}
    (h : block ∈ dupBlocks hashBlock minBlockChars seen t) : block ∈ blocks minBlockChars t.text :=
  (mem_filter.mp h).1

theorem indexOf_of_mem_blocks (h : block ∈ blocks minBlockChars text) :
    ∃ idx, JsString.indexOf block text = some idx :=
  Option.isSome_iff_exists.mp
    ((JsString.indexOf_isSome_iff block text).mpr (mem_blocks h).1.isInfix)

theorem mem_blocks_of_duplicate {turn : Nat} {texts : List MsgText}
    (h : duplicate hashBlock minBlockChars turn texts t = some block) :
    block ∈ blocks minBlockChars t.text := by
  unfold duplicate at h
  split at h
  · cases h
  · exact mem_blocks_of_mem_dupBlocks ((mem_insertionSort _).mp (mem_of_mem_head? h))

theorem rewriteText_eq (turn : Nat) (texts : List MsgText) (t : MsgText) :
    rewriteText hashBlock minBlockChars turn (firstSeen hashBlock minBlockChars texts) t =
      (duplicate hashBlock minBlockChars turn texts t).map (replaceBlock hashBlock t.text) := by
  unfold rewriteText duplicate
  split
  · rfl
  · cases hdups : (dupBlocks hashBlock minBlockChars (firstSeen hashBlock minBlockChars texts)
        t).insertionSort longerFirst with
    | nil => rfl
    | cons block rest =>
      have hmem : block ∈ blocks minBlockChars t.text :=
        mem_blocks_of_mem_dupBlocks ((mem_insertionSort longerFirst).mp
          (by rw [hdups]; exact mem_cons_self))
      obtain ⟨idx, hidx⟩ := indexOf_of_mem_blocks hmem
      simp [replaceDuplicate, replaceBlock, hidx]

/-- The text that the engine makes of a text, if it changes it. -/
def newText (hashBlock : JsString → JsString) (minBlockChars turn : Nat) (texts : List MsgText)
    (t : MsgText) : Option JsString :=
  match texts with
  | [_] =>
      let (deduped, changed) := dedupeWithinMessage hashBlock t.text minBlockChars
      if changed then some deduped else none
  | texts => (duplicate hashBlock minBlockChars turn texts t).map (replaceBlock hashBlock t.text)

theorem dedup_fold (turn : Nat) (seen : JsMap JsString Owner) (texts : List MsgText) :
    texts.foldl (dedupStep hashBlock minBlockChars turn seen) ([], 0) =
      (KeyedStore.store MsgText.msgIdx (rewriteText hashBlock minBlockChars turn seen) texts,
        (texts.filter fun t => (rewriteText hashBlock minBlockChars turn seen t).isSome).length) := by
  induction texts using List.reverseRecOn with
  | nil => rfl
  | append_singleton texts t ih =>
    rw [foldl_append, ih, KeyedStore.store_concat, filter_append]
    cases hresult : rewriteText hashBlock minBlockChars turn seen t with
    | none => simp [dedupStep, hresult]
    | some result => simp [dedupStep, hresult]

/-- The engine stores what it makes of each text under its key, and counts it. -/
theorem dedupMessageTexts_eq (turn : Nat) (texts : List MsgText) :
    (dedupMessageTexts hashBlock texts minBlockChars turn).1 =
        KeyedStore.store MsgText.msgIdx (newText hashBlock minBlockChars turn texts) texts ∧
      ((dedupMessageTexts hashBlock texts minBlockChars turn).2 = 0 ↔
        ∀ t ∈ texts, newText hashBlock minBlockChars turn texts t = none) := by
  unfold dedupMessageTexts
  split
  · rename_i t
    cases hchanged : (dedupeWithinMessage hashBlock t.text minBlockChars).2 with
    | false => simp [newText, KeyedStore.store, hchanged]
    | true => simp [newText, KeyedStore.store, hchanged]
  · rename_i hseveral
    have hnew : newText hashBlock minBlockChars turn texts =
        rewriteText hashBlock minBlockChars turn (firstSeen hashBlock minBlockChars texts) := by
      funext t
      rw [rewriteText_eq, newText]
      exact fun t' => hseveral t'
    rw [hnew, dedup_fold]
    refine ⟨rfl, ?_⟩
    simp

/-! ## Writing back -/

/-- The items of a list that is written by place keep their places. -/
theorem zipIdx_map_zipIdx {α β : Type} (f : α → Nat → β) (l : List α) (k : Nat) :
    ((l.zipIdx k).map fun (x, i) => f x i).zipIdx k =
      (l.zipIdx k).map fun (x, i) => (f x i, i) := by
  induction l generalizing k with
  | nil => rfl
  | cons x l ih => simp [ih (k + 1)]

def MsgText.write (deduped : JsMap Nat JsString) (t : MsgText) : MsgText :=
  { t with text := (deduped.get t.msgIdx).getD t.text }

theorem text?_set {part : Part} (replacement : JsString) (h : part.text? = some text) :
    Part.text? (JsMap.set (js "text") (.str replacement) part) = some replacement := by
  have hother : js "text" ≠ js "type" := by decide
  unfold Part.text? at h ⊢
  rw [JsMap.get_set, JsMap.get_set, if_neg hother, if_pos rfl]
  split at h
  · rename_i type _ htype _
    rw [htype]
    dsimp only
    split at h
    · rename_i hkind
      rw [if_pos hkind]
    · cases h
  · cases h

variable (deduped : JsMap Nat JsString)

theorem text?_writePart (i p : Nat) (part : Part) :
    (writePart deduped i part p).text? =
      part.text?.map fun text => (deduped.get (partKey i p)).getD text := by
  unfold writePart
  cases htext : part.text? with
  | none => simp [htext]
  | some text =>
    cases hstored : deduped.get (partKey i p) with
    | none => simp [htext]
    | some replacement => simp [text?_set replacement htext]

theorem isSystem_writeMessage (msg : Message) (i : Nat) :
    (writeMessage deduped msg i).isSystem = msg.isSystem := by
  unfold writeMessage
  split
  · rfl
  · split
    · split <;> rfl
    · rfl
    · rfl

theorem messageTexts_writeMessage (msg : Message) (i : Nat) :
    messageTexts (writeMessage deduped msg i) i =
      (messageTexts msg i).map (MsgText.write deduped) := by
  rw [messageTexts, isSystem_writeMessage, messageTexts]
  split
  · rfl
  · rename_i hsystem
    rw [writeMessage, if_neg hsystem]
    cases hcontent : msg.content with
    | text text =>
      cases hstored : deduped.get (textKey i) with
      | none => simp [hcontent, MsgText.write, hstored]
      | some replacement => simp [MsgText.write, hstored]
    | parts parts =>
      dsimp only
      rw [zipIdx_map_zipIdx (fun part p => writePart deduped i part p), filterMap_map,
        map_filterMap]
      refine filterMap_congr ?_
      rintro ⟨part, p⟩ -
      simp only [Function.comp_apply, text?_writePart, Option.map_map]
      rfl
    | other value => simp [hcontent]

theorem msgTexts_write (messages : List Message) :
    msgTexts (messages.zipIdx.map fun (msg, i) => writeMessage deduped msg i) =
      (msgTexts messages).map (MsgText.write deduped) := by
  unfold msgTexts
  rw [zipIdx_map_zipIdx (fun msg i => writeMessage deduped msg i), flatMap_map, map_flatMap]
  congr 1
  funext ⟨msg, i⟩
  exact messageTexts_writeMessage deduped msg i

/-! ## Everything but the texts -/

def blankPart (part : Part) : Part :=
  match part.text? with
  | some _ => JsMap.set (js "text") (.str []) part
  | none => part

/-- A message without its texts.  Those of a system message stay. -/
def Message.blank (msg : Message) : Message :=
  if msg.isSystem then msg
  else
    match msg.content with
    | .text _ => { msg with content := .text [] }
    | .parts parts => { msg with content := .parts (parts.map blankPart) }
    | .other _ => msg

theorem set_set (key : JsString) (v w : Json) (part : Part) :
    JsMap.set key w (JsMap.set key v part) = JsMap.set key w part := by
  induction part with
  | nil => simp [JsMap.set]
  | cons member part ih =>
    obtain ⟨k, x⟩ := member
    by_cases hk : k = key
    · simp [JsMap.set, hk]
    · simp [JsMap.set, hk, ih]

theorem blankPart_writePart (i p : Nat) (part : Part) :
    blankPart (writePart deduped i part p) = blankPart part := by
  cases htext : part.text? with
  | none => simp [writePart, htext]
  | some text =>
    cases hstored : deduped.get (partKey i p) with
    | none => simp [writePart, htext, hstored]
    | some replacement =>
      simp [writePart, htext, hstored, blankPart, text?_set replacement htext, set_set]

theorem map_blankPart {write : Part × Nat → Part}
    (h : ∀ part p, blankPart (write (part, p)) = blankPart part) (parts : List Part) :
    (parts.zipIdx.map write).map blankPart = parts.map blankPart := by
  rw [map_map]
  conv_rhs => rw [← zipIdx_map_fst 0 parts, map_map]
  refine map_congr_left ?_
  rintro ⟨part, p⟩ -
  exact h part p

theorem blank_writeMessage (msg : Message) (i : Nat) :
    (writeMessage deduped msg i).blank = msg.blank := by
  rw [Message.blank, isSystem_writeMessage, Message.blank]
  split
  · rename_i hsystem
    rw [writeMessage, if_pos hsystem]
  · rename_i hsystem
    rw [writeMessage, if_neg hsystem]
    cases hcontent : msg.content with
    | text text =>
      cases hstored : deduped.get (textKey i) <;> simp [hcontent]
    | parts parts =>
      dsimp only
      rw [map_blankPart]
      exact fun part p => blankPart_writePart deduped i p part
    | other value => simp [hcontent]

/-! ## Keys -/

theorem messageIndex_of_mem {msg : Message} {i : Nat} (h : t ∈ messageTexts msg i) :
    t.messageIndex = i := by
  unfold messageTexts at h
  split at h
  · simp at h
  · split at h
    · rw [mem_singleton.mp h]
    · simp only [mem_filterMap, Option.map_eq_some_iff] at h
      obtain ⟨_, _, _, _, rfl⟩ := h
      rfl
    · simp at h

theorem messageTexts_inj {msg : Message} {i : Nat} {t' : MsgText} (ht : t ∈ messageTexts msg i)
    (ht' : t' ∈ messageTexts msg i) (hkey : t'.msgIdx = t.msgIdx) : t' = t := by
  unfold messageTexts at ht ht'
  split at ht
  · simp at ht
  · rename_i hsystem
    rw [if_neg hsystem] at ht'
    split at ht
    · rename_i hcontent
      rw [hcontent] at ht'
      rw [mem_singleton.mp ht, mem_singleton.mp ht']
    · rename_i parts hcontent
      rw [hcontent] at ht'
      simp only [mem_filterMap, Option.map_eq_some_iff] at ht ht'
      obtain ⟨⟨part, p⟩, hpart, text, hread, rfl⟩ := ht
      obtain ⟨⟨part', p'⟩, hpart', text', hread', rfl⟩ := ht'
      have hp : p' = p := by
        simp only [partKey] at hkey
        omega
      subst hp
      have hget := mem_zipIdx_iff_getElem?.mp hpart
      have hget' := mem_zipIdx_iff_getElem?.mp hpart'
      rw [hget] at hget'
      cases hget'
      rw [hread] at hread'
      cases hread'
      rfl
    · simp at ht

variable {messages : List Message}

theorem msgTexts_inj {t' : MsgText} (ht : t ∈ msgTexts messages) (ht' : t' ∈ msgTexts messages)
    (hkey : t'.msgIdx = t.msgIdx) (hmessage : t'.messageIndex = t.messageIndex) : t' = t := by
  obtain ⟨⟨msg, i⟩, hmem, htext⟩ := mem_flatMap.mp ht
  obtain ⟨⟨msg', i'⟩, hmem', htext'⟩ := mem_flatMap.mp ht'
  have hi : i' = i := by
    rw [← messageIndex_of_mem htext, ← messageIndex_of_mem htext', hmessage]
  subst hi
  have hget := mem_zipIdx_iff_getElem?.mp hmem
  have hget' := mem_zipIdx_iff_getElem?.mp hmem'
  rw [hget] at hget'
  cases hget'
  exact messageTexts_inj htext htext' hkey

/-! ## The frame -/

/-- The map of the engine, in which each text still carries the message that it
was made from. -/
def written (hashBlock : JsString → JsString) (minBlockChars : Nat) (messages : List Message) :
    JsMap Nat MsgText :=
  KeyedStore.store MsgText.msgIdx (fun t =>
      (newText hashBlock minBlockChars (currentTurnStart messages) (msgTexts messages) t).map
        fun text => { t with text := text })
    (msgTexts messages)

def textAfter (hashBlock : JsString → JsString) (minBlockChars : Nat) (messages : List Message)
    (t : MsgText) : JsString :=
  (((written hashBlock minBlockChars messages).get t.msgIdx).map MsgText.text).getD t.text

theorem write_eq_textAfter (messages : List Message) (t : MsgText) :
    t.write (dedupMessageTexts hashBlock (msgTexts messages) minBlockChars
        (currentTurnStart messages)).1 =
      { t with text := textAfter hashBlock minBlockChars messages t } := by
  have hget : JsMap.get t.msgIdx (dedupMessageTexts hashBlock (msgTexts messages) minBlockChars
      (currentTurnStart messages)).1 =
      ((written hashBlock minBlockChars messages).get t.msgIdx).map MsgText.text := by
    rw [(dedupMessageTexts_eq _ _).1, written, ← KeyedStore.get_store_map]
    simp [Function.comp_def]
  rw [MsgText.write, hget, textAfter]

section

variable (h : ∀ t ∈ msgTexts messages, newText hashBlock minBlockChars (currentTurnStart messages) (msgTexts messages) t = none)
include h

/-- Nothing was changed: what a text is in the output is what it was. -/
theorem textAfter_of_none (t : MsgText) : textAfter hashBlock minBlockChars messages t = t.text := by
  have hempty : written hashBlock minBlockChars messages = [] := by
    rw [written, KeyedStore.store_eq_nil_iff]
    intro t ht
    rw [h t ht]
    rfl
  rw [textAfter, hempty]
  rfl

theorem map_textAfter_of_none :
    ((msgTexts messages).map fun t =>
      { t with text := textAfter hashBlock minBlockChars messages t }) = msgTexts messages := by
  refine (map_congr_left fun t _ => ?_).trans (map_id _)
  rw [textAfter_of_none h]
  rfl

end

theorem msgTexts_processMessages (messages : List Message) :
    msgTexts (processMessages hashBlock messages minBlockChars).1 = (msgTexts messages).map fun t =>
        { t with text := textAfter hashBlock minBlockChars messages t } := by
  unfold processMessages
  dsimp only
  split
  · rename_i hempty
    have hnone := List.isEmpty_iff.mp hempty
    simp [hnone]
  · split
    · rename_i hcount
      rw [map_textAfter_of_none ((dedupMessageTexts_eq _ _).2.mp hcount)]
    · rw [msgTexts_write]
      exact map_congr_left fun t _ => write_eq_textAfter messages t

theorem blank_processMessages (messages : List Message) :
    (processMessages hashBlock messages minBlockChars).1.map Message.blank =
      messages.map Message.blank := by
  unfold processMessages
  dsimp only
  split
  · rfl
  · split
    · rfl
    · rw [map_map]
      conv_rhs => rw [← zipIdx_map_fst 0 messages, map_map]
      refine map_congr_left ?_
      rintro ⟨msg, i⟩ -
      exact blank_writeMessage _ msg i

/-- How a text may be changed.  A text that is alone may have several
occurrences replaced. -/
def TextFrame (hashBlock : JsString → JsString) (minBlockChars : Nat) (texts : List MsgText)
    (t : MsgText) (result : JsString) : Prop :=
  if texts.length = 1 then Replaces hashBlock (blocks minBlockChars t.text) t.text result
  else result = t.text ∨ ReplacesOne hashBlock (blocks minBlockChars t.text) t.text result

/-- The engine leaves alone what it is not asked to change. -/
structure Framed (hashBlock : JsString → JsString) (minBlockChars : Nat) (messages : List Message) :
    Prop where
  /-- Roles, other fields, parts that are no texts and system messages are
  unchanged. -/
  shape : (processMessages hashBlock messages minBlockChars).1.map Message.blank =
    messages.map Message.blank
  /-- What a text finds under its key was made from it. -/
  own : ∀ t ∈ msgTexts messages, ∀ source,
    (written hashBlock minBlockChars messages).get t.msgIdx = some source →
      source.messageIndex = t.messageIndex
  /-- Each text stays in its place, and is changed only by markers for its own
  blocks. -/
  texts : List.Forall₂ (fun t t' => t'.msgIdx = t.msgIdx ∧ t'.messageIndex = t.messageIndex ∧
      TextFrame hashBlock minBlockChars (msgTexts messages) t t'.text)
    (msgTexts messages) (msgTexts (processMessages hashBlock messages minBlockChars).1)

/-- The text stands before the current turn and has a block that an earlier key
owns. -/
def HasDuplicate (hashBlock : JsString → JsString) (minBlockChars : Nat) (messages : List Message)
    (t : MsgText) : Prop :=
  t.messageIndex < currentTurnStart messages ∧
    dupBlocks hashBlock minBlockChars (firstSeen hashBlock minBlockChars (msgTexts messages)) t ≠ []

/-- No text with a duplicate shares its key with a text of another message. -/
def KeysApart (hashBlock : JsString → JsString) (minBlockChars : Nat) (messages : List Message) :
    Prop :=
  ∀ t ∈ msgTexts messages, ∀ t' ∈ msgTexts messages, t'.msgIdx = t.msgIdx →
    t'.messageIndex ≠ t.messageIndex → ¬ HasDuplicate hashBlock minBlockChars messages t'

theorem duplicate_isSome_iff (messages : List Message) (t : MsgText) :
    (duplicate hashBlock minBlockChars (currentTurnStart messages) (msgTexts messages) t).isSome =
      true ↔ HasDuplicate hashBlock minBlockChars messages t := by
  unfold duplicate HasDuplicate
  split
  · simp only [Option.isSome_none, Bool.false_eq_true, false_iff]
    intro hbefore
    omega
  · rw [isSome_head?, ne_eq, ← length_eq_zero_iff, length_insertionSort, length_eq_zero_iff]
    exact ⟨fun h => ⟨by omega, h⟩, fun h => h.2⟩

theorem newText_of_two {t' : MsgText} (ht : t ∈ msgTexts messages) (ht' : t' ∈ msgTexts messages)
    (hmessage : t'.messageIndex ≠ t.messageIndex) (turn : Nat) (x : MsgText) :
    newText hashBlock minBlockChars turn (msgTexts messages) x =
      (duplicate hashBlock minBlockChars turn (msgTexts messages) x).map
        (replaceBlock hashBlock x.text) := by
  unfold newText
  split
  · rename_i only heq
    rw [heq, mem_singleton] at ht ht'
    rw [ht, ht'] at hmessage
    exact absurd rfl hmessage
  · rfl

theorem replacesOne_replaceBlock (h : block ∈ blocks minBlockChars text) :
    ReplacesOne hashBlock (blocks minBlockChars text) text (replaceBlock hashBlock text block) := by
  obtain ⟨idx, hidx⟩ := indexOf_of_mem_blocks h
  have hreplaced : ReplacesOne hashBlock (blocks minBlockChars text) text _ :=
    replacesOne_of_indexOf h hidx
  simpa only [replaceBlock, hidx, Option.getD_some] using hreplaced

theorem textFrame_newText {turn : Nat} {texts : List MsgText} {result : JsString}
    (h : newText hashBlock minBlockChars turn texts t = some result) :
    TextFrame hashBlock minBlockChars texts t result := by
  unfold newText at h
  unfold TextFrame
  split at h
  · dsimp only at h
    split at h
    · cases h
      exact replaces_dedupeWithinMessage t.text
    · cases h
  · rename_i hseveral
    have hlength : texts.length ≠ 1 := by
      intro hone
      obtain ⟨only, honly⟩ := length_eq_one_iff.mp hone
      exact hseveral only honly
    rw [if_neg hlength]
    obtain ⟨block, hblock, rfl⟩ := Option.map_eq_some_iff.mp h
    exact .inr (replacesOne_replaceBlock (mem_blocks_of_duplicate hblock))

theorem textFrame_refl (texts : List MsgText) (t : MsgText) :
    TextFrame hashBlock minBlockChars texts t t.text := by
  unfold TextFrame
  split
  · exact .refl
  · exact .inl rfl

theorem get_written {k : Nat} {source : MsgText}
    (h : (written hashBlock minBlockChars messages).get k = some source) :
    ∃ t ∈ msgTexts messages, t.msgIdx = k ∧ source.messageIndex = t.messageIndex ∧
      newText hashBlock minBlockChars (currentTurnStart messages) (msgTexts messages) t =
        some source.text := by
  obtain ⟨t, ht, hkey, hnew⟩ := KeyedStore.get_store_mem h
  obtain ⟨text, htext, rfl⟩ := Option.map_eq_some_iff.mp hnew
  exact ⟨t, ht, hkey, rfl, htext⟩

theorem textAfter_of_own (hown : ∀ t ∈ msgTexts messages, ∀ source,
      (written hashBlock minBlockChars messages).get t.msgIdx = some source →
        source.messageIndex = t.messageIndex) (ht : t ∈ msgTexts messages) :
    textAfter hashBlock minBlockChars messages t =
      (newText hashBlock minBlockChars (currentTurnStart messages) (msgTexts messages) t).getD
        t.text := by
  unfold textAfter
  cases hfound : (written hashBlock minBlockChars messages).get t.msgIdx with
  | none =>
    cases hnew : newText hashBlock minBlockChars (currentTurnStart messages) (msgTexts messages)
      t with
    | none => rfl
    | some text =>
      have hsome : ((written hashBlock minBlockChars messages).get t.msgIdx).isSome = true :=
        KeyedStore.isSome_get_store ht (by rw [hnew]; rfl)
      rw [hfound] at hsome
      simp at hsome
  | some source =>
    obtain ⟨t', ht', hkey, hsource, hnew⟩ := get_written hfound
    have hmessage := hown t ht source hfound
    rw [hsource] at hmessage
    rw [msgTexts_inj ht ht' hkey hmessage] at hnew
    rw [hnew]
    rfl

/-- What a text finds was made from it, as long as no other text is rewritten
under its key. -/
theorem own_of_keysApart (h : KeysApart hashBlock minBlockChars messages) :
    ∀ t ∈ msgTexts messages, ∀ source,
      (written hashBlock minBlockChars messages).get t.msgIdx = some source →
        source.messageIndex = t.messageIndex := by
  intro t ht source hfound
  obtain ⟨t', ht', hkey, hsource, hnew⟩ := get_written hfound
  rw [hsource]
  by_contra hmessage
  refine h t ht t' ht' hkey hmessage ?_
  rw [newText_of_two ht ht' hmessage] at hnew
  rw [← duplicate_isSome_iff, ← Option.isSome_map, hnew]
  rfl

/-- The engine leaves everything else alone exactly when no text that it
rewrites shares its key. -/
theorem framed_iff (hashBlock : JsString → JsString) (minBlockChars : Nat)
    (messages : List Message) :
    Framed hashBlock minBlockChars messages ↔ KeysApart hashBlock minBlockChars messages := by
  constructor
  · intro h t ht t' ht' hkey hmessage hduplicate
    -- one value is found under the key, and it cannot be made from both texts
    have hnew : (newText hashBlock minBlockChars (currentTurnStart messages) (msgTexts messages)
        t').isSome = true := by
      rw [newText_of_two ht ht' hmessage, Option.isSome_map, duplicate_isSome_iff]
      exact hduplicate
    have hfound : ((written hashBlock minBlockChars messages).get t'.msgIdx).isSome = true :=
      KeyedStore.isSome_get_store ht' (by rw [Option.isSome_map]; exact hnew)
    obtain ⟨source, hsource⟩ := Option.isSome_iff_exists.mp hfound
    have hown' := h.own t' ht' source hsource
    rw [hkey] at hsource
    have hown := h.own t ht source hsource
    omega
  · intro h
    have hown := own_of_keysApart h
    refine ⟨blank_processMessages messages, hown, ?_⟩
    rw [msgTexts_processMessages, forall₂_map_right_iff, forall₂_same]
    intro t ht
    refine ⟨rfl, rfl, ?_⟩
    rw [textAfter_of_own hown ht]
    cases hnew : newText hashBlock minBlockChars (currentTurnStart messages) (msgTexts messages)
      t with
    | none => exact textFrame_refl _ t
    | some result => exact textFrame_newText hnew

/-- A part of type `text`. -/
def textPart (text : JsString) : Part :=
  [(js "type", .str (js "text")), (js "text", .str text)]

/-- The SHA-256 prefix of one block, and of all others the one of the empty
text. -/
def abcHash (block : JsString) : JsString :=
  if block = js "a\nb\nc" then js "ea7fb08b7a2dc4619ffb7c7b" else js "e3b0c44298fc1c149afbf4c8"

/-- A message of two parts, and a repeated string content two messages later.
The second part and the string content both have the key 2. -/
def collidingKeys : List Message :=
  [{ role := some (js "user"),
     content := .parts [textPart (js "a\nb\nc"), textPart (js "hello")] },
   { role := some (js "assistant"), content := .text (js "x") },
   { role := some (js "user"), content := .text (js "a\nb\nc") },
   { role := some (js "assistant"), content := .text (js "y") }]

/-- The part `hello` becomes the marker that was made for another message. -/
theorem not_framed_collidingKeys :
    ¬ ∀ (hashBlock : JsString → JsString) (minBlockChars : Nat) (messages : List Message),
      Framed hashBlock minBlockChars messages := by
  intro h
  have hpair : ((⟨2, 0, js "hello"⟩ : MsgText),
      (⟨2, 0, js "[dedup:ref sha=ea7fb08b7a2dc4619ffb7c7b]"⟩ : MsgText)) ∈
      (msgTexts collidingKeys).zip (msgTexts (processMessages abcHash collidingKeys 1).1) := by
    decide
  have hframe := (forall₂_iff_zip.mp (h abcHash 1 collidingKeys).texts).2 hpair
  have hseveral : (msgTexts collidingKeys).length ≠ 1 := by decide
  have hnone : blocks 1 (js "hello") = [] := by decide
  obtain ⟨-, -, htext⟩ := hframe
  obtain hsame | ⟨block, hblock, -⟩ := htext
  · exact absurd hsame (by decide)
  · exact absurd hblock not_mem_nil

end RedRouter.Compression.SessionDedup
