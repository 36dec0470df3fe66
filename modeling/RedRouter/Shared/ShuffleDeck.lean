import Mathlib.Data.List.Sort
import Mathlib.Data.List.Chain
import RedRouter.Lib.JsMap
import RedRouter.Lib.JsString

/-!
# The shuffle deck

A deck hands out the ids of a list in a shuffled order, each once in a cycle, and is
shuffled again at the end.  `getNextFromDeck` does the same as `getNextFromDeckSync`
under a mutex, without an await between the read and the write of the deck, so one
`draw` is one step of both.

The random numbers are those of an arbitrary `RandomSource`.  What a shuffle gives is a
permutation for each of them (`fisherYatesShuffle_perm`), and the swap behind it keeps
the last id of a cycle from being the first of the next (`reshuffle_spec`).  A deck whose
ids do not change has dealt whole cycles and a part of the current one (`Dealt`), which is
where `draws_fair` comes from.
-/

namespace RedRouter.Shared

open List JsString JsMap Option

/-! ## Random numbers -/

/-- The answers of `randomInt`: the call with the number `k` gives a number below `max`. -/
structure RandomSource where
  randomInt : Nat → Nat → Nat
  lt : ∀ k max, 1 < max → randomInt k max < max

/-- The number, and the number of the next call. -/
def secureRandomInt (source : RandomSource) (maxExclusive k : Nat) : Nat × Nat :=
  if maxExclusive ≤ 1 then (0, k) else (source.randomInt k maxExclusive, k + 1)

variable (source : RandomSource)

theorem secureRandomInt_lt {maxExclusive : Nat} (h : 0 < maxExclusive) (k : Nat) :
    (secureRandomInt source maxExclusive k).1 < maxExclusive := by
  unfold secureRandomInt
  split
  · exact h
  · exact source.lt k maxExclusive (by omega)

/-! ## Fisher-Yates -/

section Shuffle

variable {α : Type}

/-- `tmp = a[i]; a[i] = a[j]; a[j] = tmp` -/
def swap (a : List α) (i j : Nat) : List α :=
  match a[i]?, a[j]? with
  | some x, some y => (a.set i y).set j x
  | _, _ => a

theorem swap_perm (a : List α) (i j : Nat) : (swap a i j).Perm a := by
  unfold swap
  split
  · rename_i x y hx hy
    obtain ⟨hi, rfl⟩ := List.getElem?_eq_some_iff.mp hx
    obtain ⟨hj, rfl⟩ := List.getElem?_eq_some_iff.mp hy
    exact set_set_perm hi hj
  · exact List.Perm.refl a

/-- The loop from the index `i` down to 1. -/
def shuffleLoop (source : RandomSource) : Nat → List α → Nat → List α × Nat
  | 0, result, k => (result, k)
  | i + 1, result, k =>
      let (j, k) := secureRandomInt source (i + 2) k
      shuffleLoop source i (swap result (i + 1) j) k

variable (source : RandomSource)

theorem shuffleLoop_succ (i : Nat) (result : List α) (k : Nat) :
    shuffleLoop source (i + 1) result k =
      shuffleLoop source i (swap result (i + 1) (secureRandomInt source (i + 2) k).1)
        (secureRandomInt source (i + 2) k).2 := rfl

def fisherYatesShuffle (source : RandomSource) (arr : List α) (k : Nat) : List α × Nat :=
  shuffleLoop source (arr.length - 1) arr k

theorem shuffleLoop_perm (i : Nat) (result : List α) (k : Nat) :
    (shuffleLoop source i result k).1.Perm result := by
  induction i generalizing result k with
  | zero => exact List.Perm.refl result
  | succ i ih => exact (ih _ _).trans (swap_perm result _ _)

theorem fisherYatesShuffle_perm (arr : List α) (k : Nat) :
    (fisherYatesShuffle source arr k).1.Perm arr :=
  shuffleLoop_perm source _ arr k

end Shuffle

/-! ## Decks -/

structure ShuffleDeck where
  order : List JsString
  index : Nat
  idsKey : JsString

/-- The decks, and the number of random numbers that were drawn. -/
structure Decks where
  decks : JsMap JsString ShuffleDeck
  calls : Nat

/-- `[...itemIds].sort().join(",")` -/
def idsKey (itemIds : List JsString) : JsString := join (js ",") (itemIds.insertionSort (· ≤ ·))

/-- `order[index]`, if the deck is for these ids and not exhausted. -/
def ShuffleDeck.current? (deck : ShuffleDeck) (key : JsString) : Option JsString :=
  if deck.idsKey = key then deck.order[deck.index]? else none

/-- The last id of the cycle before, if it was about the same ids. -/
def lastUsedId (existing : Option ShuffleDeck) (key : JsString) : Option JsString :=
  existing.bind fun deck => if deck.idsKey = key then deck.order.getLast? else none

/-- A new order that does not begin with the last id. -/
def reshuffle (source : RandomSource) (itemIds : List JsString) (last : Option JsString) (k : Nat) :
    List JsString × Nat :=
  let (newOrder, k) := fisherYatesShuffle source itemIds k
  if last.isSome ∧ newOrder.head? = last ∧ newOrder.length > 1 then
    let (r, k) := secureRandomInt source (newOrder.length - 1) k
    (swap newOrder 0 (1 + r), k)
  else (newOrder, k)

def drawFromDeck (source : RandomSource) (deckName : JsString) (itemIds : List JsString)
    (s : Decks) : JsString × Decks :=
  let key := idsKey itemIds
  let existing := JsMap.get deckName s.decks
  match existing.bind fun deck => (deck.current? key).map fun id => (deck, id) with
  | some (deck, id) =>
      (id, { s with decks := JsMap.set deckName { deck with index := deck.index + 1 } s.decks })
  | none =>
      let (newOrder, k) := reshuffle source itemIds (lastUsedId existing key) s.calls
      let deck := { order := newOrder, index := 1, idsKey := key }
      (newOrder.headD [], { decks := JsMap.set deckName deck s.decks, calls := k })

/-- `getNextFromDeckSync`, and `getNextFromDeck` between its mutex. -/
def getNextFromDeck (source : RandomSource) (deckName : JsString) (itemIds : List JsString)
    (s : Decks) : JsString × Decks :=
  match itemIds with
  | [] => (js "", s)
  | [id] => (id, s)
  | itemIds => drawFromDeck source deckName itemIds s

/-! ## One draw -/

theorem reshuffle_perm (itemIds : List JsString) (last : Option JsString) (k : Nat) :
    (reshuffle source itemIds last k).1.Perm itemIds := by
  have hperm := fisherYatesShuffle_perm source itemIds k
  unfold reshuffle
  dsimp only
  split
  · exact (swap_perm _ _ _).trans hperm
  · exact hperm

theorem head?_swap {a : List JsString} (hnodup : a.Nodup) {r : Nat} (hr : r < a.length - 1) :
    (swap a 0 (1 + r)).head? ≠ a.head? := by
  have hr' : 1 + r < a.length := by omega
  have hfirst : 0 < a.length := by omega
  have hswap : swap a 0 (1 + r) = (a.set 0 a[1 + r]).set (1 + r) a[0] := by
    unfold swap
    rw [getElem?_eq_getElem hfirst, getElem?_eq_getElem hr']
  rw [hswap, head?_eq_getElem?, head?_eq_getElem?, getElem?_set_ne (by omega),
    getElem?_set_self hfirst, getElem?_eq_getElem hfirst]
  intro h
  have heq := hnodup.getElem_inj_iff.mp (Option.some.inj h)
  omega

variable {itemIds : List JsString}

theorem reshuffle_head (hnodup : itemIds.Nodup) (hlength : 2 ≤ itemIds.length) (id : JsString)
    (k : Nat) : (reshuffle source itemIds (some id) k).1.head? ≠ some id := by
  have hperm := fisherYatesShuffle_perm source itemIds k
  have horder := hperm.length_eq
  unfold reshuffle
  dsimp only
  split
  · rename_i hfirst
    have hr := secureRandomInt_lt source
      (show 0 < (fisherYatesShuffle source itemIds k).1.length - 1 by omega)
      (fisherYatesShuffle source itemIds k).2
    rw [← hfirst.2.1]
    exact head?_swap (hperm.nodup_iff.mpr hnodup) hr
  · rename_i hfirst
    intro h
    exact hfirst ⟨rfl, h, by omega⟩

theorem getNextFromDeck_eq (deckName : JsString) (hlength : 2 ≤ itemIds.length) (s : Decks) :
    getNextFromDeck source deckName itemIds s = drawFromDeck source deckName itemIds s := by
  match itemIds, hlength with
  | _ :: _ :: _, _ => rfl

/-- A draw deals the next id of the deck, or the first of a new order. -/
theorem drawFromDeck_cases (deckName : JsString) (hne : itemIds ≠ []) (s : Decks) :
    (∃ deck id, JsMap.get deckName s.decks = some deck ∧ deck.idsKey = idsKey itemIds ∧
        deck.order[deck.index]? = some id ∧
        drawFromDeck source deckName itemIds s =
          (id, ⟨JsMap.set deckName ⟨deck.order, deck.index + 1, deck.idsKey⟩ s.decks, s.calls⟩)) ∨
      ((∀ deck, JsMap.get deckName s.decks = some deck → deck.idsKey = idsKey itemIds →
          deck.order.length ≤ deck.index) ∧
        ∃ id order k, order.head? = some id ∧ order = (reshuffle source itemIds
            (lastUsedId (JsMap.get deckName s.decks) (idsKey itemIds)) s.calls).1 ∧
          drawFromDeck source deckName itemIds s =
            (id, ⟨JsMap.set deckName ⟨order, 1, idsKey itemIds⟩ s.decks, k⟩)) := by
  unfold drawFromDeck
  dsimp only
  cases hcurrent : (JsMap.get deckName s.decks).bind fun deck =>
      (deck.current? (idsKey itemIds)).map fun id => (deck, id) with
  | some next =>
    obtain ⟨deck, id⟩ := next
    obtain ⟨deck', hdeck, hmap⟩ := bind_eq_some_iff.mp hcurrent
    obtain ⟨id', hid, hpair⟩ := map_eq_some_iff.mp hmap
    cases hpair
    unfold ShuffleDeck.current? at hid
    split at hid
    · rename_i hkey
      exact Or.inl ⟨deck, id, hdeck, hkey, hid, rfl⟩
    · cases hid
  | none =>
    right
    constructor
    · intro deck hdeck hkey
      rw [hdeck, bind_some, map_eq_none_iff, ShuffleDeck.current?, if_pos hkey]
        at hcurrent
      exact List.getElem?_eq_none_iff.mp hcurrent
    · have hperm := reshuffle_perm source itemIds
        (lastUsedId (JsMap.get deckName s.decks) (idsKey itemIds)) s.calls
      generalize hnew : reshuffle source itemIds
        (lastUsedId (JsMap.get deckName s.decks) (idsKey itemIds)) s.calls = new at hperm ⊢
      obtain ⟨order, k⟩ := new
      cases order with
      | nil => exact absurd hperm.symm.eq_nil hne
      | cons id order => exact ⟨id, id :: order, k, rfl, rfl, rfl⟩

/-! ## Runs -/

/-- A call of `getNextFromDeck`. -/
structure Draw where
  deckName : JsString
  itemIds : List JsString

/-- The decks after a draw, and the draws so far with what they gave. -/
def step (source : RandomSource) (s : Decks × List (Draw × JsString)) (d : Draw) :
    Decks × List (Draw × JsString) :=
  let (id, decks) := getNextFromDeck source d.deckName d.itemIds s.1
  (decks, s.2 ++ [(d, id)])

def run (source : RandomSource) (s : Decks) (draws : List Draw) : Decks × List (Draw × JsString) :=
  draws.foldl (step source) (s, [])

theorem run_concat (s : Decks) (draws : List Draw) (d : Draw) :
    run source s (draws ++ [d]) = step source (run source s draws) d := by
  rw [run, foldl_append]
  rfl

def drawnFrom (deckName : JsString) (log : List (Draw × JsString)) : List JsString :=
  (log.filter fun entry => entry.1.deckName = deckName).map Prod.snd

theorem drawnFrom_concat (deckName : JsString) (log : List (Draw × JsString)) (d : Draw)
    (id : JsString) :
    drawnFrom deckName (log ++ [(d, id)]) =
      drawnFrom deckName log ++ if d.deckName = deckName then [id] else [] := by
  rw [drawnFrom, filter_append, map_append, drawnFrom]
  by_cases h : d.deckName = deckName
  all_goals simp [h]

theorem get_getNextFromDeck_other {deckName other : JsString} (h : other ≠ deckName)
    (itemIds : List JsString) (s : Decks) :
    JsMap.get deckName (getNextFromDeck source other itemIds s).2.decks =
      JsMap.get deckName s.decks := by
  match itemIds with
  | [] => rfl
  | [_] => rfl
  | a :: b :: rest =>
    rw [getNextFromDeck_eq source other (by simp)]
    rcases drawFromDeck_cases source other (cons_ne_nil a (b :: rest)) s with
      ⟨deck, id, -, -, -, hdraw⟩ | ⟨-, id, order, k, -, -, hdraw⟩
    all_goals rw [hdraw, get_set, if_neg h]

/-! ## Fairness -/

/-- Whole rounds of all items, and the beginning of one more. -/
structure Rounds (items : List JsString) (part ids : List JsString) : Prop where
  rounds : ∃ rounds : List (List JsString), (∀ r ∈ rounds, r.Perm items) ∧
    ids = rounds.flatten ++ part
  noRepeat : ids.IsChain (· ≠ ·)

/-- The deck has dealt its order up to its index, and what was drawn are whole rounds and this. -/
def Dealt (items ids : List JsString) : Option ShuffleDeck → Prop
  | none => ids = []
  | some deck =>
      deck.idsKey = idsKey items ∧ deck.order.Perm items ∧ 0 < deck.index ∧
        Rounds items (deck.order.take deck.index) ids

variable {ids items : List JsString}

theorem Rounds.next {order : List JsString} {i : Nat} {id : JsString}
    (h : Rounds items (order.take i) ids) (hnodup : order.Nodup) (hi : 0 < i)
    (hid : order[i]? = some id) : Rounds items (order.take (i + 1)) (ids ++ [id]) := by
  obtain ⟨rounds, hrounds, hids⟩ := h.rounds
  have htake : order.take (i + 1) = order.take i ++ [id] := by
    rw [take_add_one, hid]
    rfl
  refine ⟨⟨rounds, hrounds, ?_⟩, ?_⟩
  · rw [htake, hids, append_assoc]
  · refine isChain_append.mpr ⟨h.noRepeat, isChain_singleton _, ?_⟩
    intro x hx y hy
    cases Option.some.inj hy
    obtain ⟨hlength, rfl⟩ := List.getElem?_eq_some_iff.mp hid
    have hlast : (order.take i).getLast? = some order[i - 1] := by
      rw [getLast?_take, if_neg (by omega), getElem?_eq_getElem (by omega)]
      rfl
    have hx' : x = order[i - 1] := by
      rw [hids, getLast?_append, hlast] at hx
      exact (Option.some.inj hx).symm
    rw [hx']
    intro heq
    have := hnodup.getElem_inj_iff.mp heq
    omega

theorem Rounds.restart {order next : List JsString} {id : JsString} (h : Rounds items order ids)
    (horder : order.Perm items) (hid : next.head? = some id)
    (hhead : ∀ x ∈ order.getLast?, next.head? ≠ some x) (hne : order ≠ []) :
    Rounds items (next.take 1) (ids ++ [id]) := by
  obtain ⟨rounds, hrounds, hids⟩ := h.rounds
  have htake : next.take 1 = [id] := by
    cases next with
    | nil => cases hid
    | cons x next =>
      cases Option.some.inj hid
      rfl
  refine ⟨⟨rounds ++ [order], ?_, ?_⟩, ?_⟩
  · intro r hr
    rcases mem_append.mp hr with hr | hr
    · exact hrounds r hr
    · rw [mem_singleton.mp hr]
      exact horder
  · rw [htake, hids, flatten_append, flatten_singleton]
  · refine isChain_append.mpr ⟨h.noRepeat, isChain_singleton _, ?_⟩
    intro x hx y hy
    cases Option.some.inj hy
    have hlast := getLast?_eq_some_getLast hne
    rw [hids, getLast?_append, hlast] at hx
    cases Option.some.inj hx
    rintro rfl
    exact hhead _ hlast hid

/-- Each round is a block of the draws, and so is the last one once it is whole. -/
theorem Rounds.block {part : List JsString} (h : Rounds items part ids) (hne : items ≠ [])
    (hpart : part.length ≤ items.length) (hwhole : part.length = items.length → part.Perm items)
    {k : Nat} (hk : (k + 1) * items.length ≤ ids.length) :
    ((ids.drop (k * items.length)).take items.length).Perm items := by
  obtain ⟨rounds, hrounds, rfl⟩ := h.rounds
  clear h
  have hpos : 0 < items.length := length_pos_iff.mpr hne
  induction rounds generalizing k with
  | nil =>
    rw [List.flatten_nil, nil_append] at hk ⊢
    cases k with
    | zero =>
      rw [Nat.zero_add, Nat.one_mul] at hk
      rw [Nat.zero_mul, drop_zero, take_of_length_le hpart]
      exact hwhole (Nat.le_antisymm hpart hk)
    | succ k =>
      rw [Nat.add_mul, Nat.add_mul, Nat.one_mul] at hk
      omega
  | cons r rounds ih =>
    have hr := hrounds r mem_cons_self
    have hlength := hr.length_eq
    rw [List.flatten_cons, append_assoc] at hk ⊢
    cases k with
    | zero =>
      rw [Nat.zero_mul, drop_zero, ← hlength, take_left]
      exact hr
    | succ k =>
      rw [length_append, hlength, Nat.add_mul (k + 1), Nat.one_mul] at hk
      rw [Nat.add_mul k, Nat.one_mul, Nat.add_comm, ← drop_drop, ← hlength, drop_left, hlength]
      exact ih (fun q hq => hrounds q (mem_cons_of_mem r hq)) (by omega)

theorem Dealt.draw {source : RandomSource} {deckName : JsString} {s : Decks}
    (h : Dealt items ids (JsMap.get deckName s.decks)) (hnodup : items.Nodup)
    (hlength : 2 ≤ items.length) :
    Dealt items (ids ++ [(getNextFromDeck source deckName items s).1])
      (JsMap.get deckName (getNextFromDeck source deckName items s).2.decks) := by
  have hne : items ≠ [] := ne_nil_of_length_pos (by omega)
  rw [getNextFromDeck_eq source deckName hlength]
  rcases drawFromDeck_cases source deckName hne s with
    ⟨deck, id, hdeck, hkey, hid, hdraw⟩ | ⟨hdone, id, order, k, hid, horder, hdraw⟩
  · rw [hdeck] at h
    obtain ⟨-, hperm, hpos, hrounds⟩ := h
    rw [hdraw, get_set, if_pos rfl]
    exact ⟨hkey, hperm, Nat.succ_pos _, hrounds.next (hperm.nodup_iff.mpr hnodup) hpos hid⟩
  · have hperm := reshuffle_perm source items
      (lastUsedId (JsMap.get deckName s.decks) (idsKey items)) s.calls
    rw [← horder] at hperm
    rw [hdraw, get_set, if_pos rfl]
    refine ⟨rfl, hperm, Nat.one_pos, ?_⟩
    cases hdeck : JsMap.get deckName s.decks with
    | none =>
      rw [hdeck] at h
      have hids : ids = [] := h
      subst hids
      obtain ⟨rest, rfl⟩ := head?_eq_some_iff.mp hid
      exact ⟨⟨[], fun r hr => absurd hr not_mem_nil, rfl⟩, isChain_singleton _⟩
    | some deck =>
      rw [hdeck] at h
      obtain ⟨hkey, hperm', -, hrounds⟩ := h
      rw [take_of_length_le (hdone deck hdeck hkey)] at hrounds
      refine hrounds.restart hperm' hid ?_ (fun hnil => hne ?_)
      · intro last hlast
        have hused : lastUsedId (JsMap.get deckName s.decks) (idsKey items) = some last := by
          rw [hdeck, lastUsedId, bind_some, if_pos hkey]
          exact hlast
        rw [horder, hused]
        exact reshuffle_head source hnodup hlength last s.calls
      · rw [hnil] at hperm'
        exact hperm'.symm.eq_nil

section Fair

variable (source : RandomSource) (deckName : JsString) {items : List JsString} (draws : List Draw)
  {s : Decks}

theorem dealt_run (hnodup : items.Nodup) (hlength : 2 ≤ items.length)
    (hsame : ∀ d ∈ draws, d.deckName = deckName → d.itemIds = items)
    (hfresh : JsMap.get deckName s.decks = none) :
    Dealt items (drawnFrom deckName (run source s draws).2)
      (JsMap.get deckName (run source s draws).1.decks) := by
  induction draws using List.reverseRecOn with
  | nil =>
    show Dealt items [] (JsMap.get deckName s.decks)
    rw [hfresh]
    rfl
  | append_singleton draws d ih =>
    have ih := ih fun d' hd' => hsame d' (mem_append_left _ hd')
    rw [run_concat]
    show Dealt items (drawnFrom deckName ((run source s draws).2 ++ [(d, _)])) (JsMap.get deckName
      (getNextFromDeck source d.deckName d.itemIds (run source s draws).1).2.decks)
    rw [drawnFrom_concat]
    by_cases hd : d.deckName = deckName
    · rw [if_pos hd, hd, hsame d mem_concat_self hd]
      exact ih.draw hnodup hlength
    · rw [if_neg hd, append_nil, get_getNextFromDeck_other source hd]
      exact ih

theorem drawnFrom_single {id : JsString}
    (hsame : ∀ d ∈ draws, d.deckName = deckName → d.itemIds = [id]) :
    ∀ x ∈ drawnFrom deckName (run source s draws).2, x = id := by
  induction draws using List.reverseRecOn with
  | nil =>
    intro x hx
    cases hx
  | append_singleton draws d ih =>
    have ih := ih fun d' hd' => hsame d' (mem_append_left _ hd')
    rw [run_concat]
    show ∀ x ∈ drawnFrom deckName ((run source s draws).2 ++ [(d, _)]), x = id
    rw [drawnFrom_concat]
    intro x hx
    rcases mem_append.mp hx with hx | hx
    · exact ih x hx
    · split at hx
      · rename_i hd
        rw [mem_singleton.mp hx, hsame d mem_concat_self hd]
      · cases hx

/-- Each block of draws is a permutation of the items, and no id is drawn twice in a row. -/
theorem draws_fair (hne : items ≠ []) (hnodup : items.Nodup)
    (hsame : ∀ d ∈ draws, d.deckName = deckName → d.itemIds = items)
    (hfresh : JsMap.get deckName s.decks = none) :
    (∀ k, (k + 1) * items.length ≤ (drawnFrom deckName (run source s draws).2).length →
        (((drawnFrom deckName (run source s draws).2).drop (k * items.length)).take
          items.length).Perm items) ∧
      (2 ≤ items.length → (drawnFrom deckName (run source s draws).2).IsChain (· ≠ ·)) := by
  by_cases hlength : 2 ≤ items.length
  · have hdealt := dealt_run source deckName draws hnodup hlength hsame hfresh
    have hpos : 0 < items.length := by omega
    cases hdeck : JsMap.get deckName (run source s draws).1.decks with
    | none =>
      rw [hdeck] at hdealt
      have hids : drawnFrom deckName (run source s draws).2 = [] := hdealt
      rw [hids]
      refine ⟨fun k hk => ?_, fun _ => isChain_nil⟩
      have hblock : 0 < (k + 1) * items.length := Nat.mul_pos (Nat.succ_pos k) hpos
      rw [length_nil] at hk
      omega
    | some deck =>
      rw [hdeck] at hdealt
      obtain ⟨-, hperm, -, hrounds⟩ := hdealt
      refine ⟨fun k hk => hrounds.block hne ?_ ?_ hk, fun _ => hrounds.noRepeat⟩
      · rw [← hperm.length_eq]
        exact length_take_le' _ _
      · intro hwhole
        rw [← hperm.length_eq, length_take] at hwhole
        rw [take_of_length_le (by omega)]
        exact hperm
  · refine ⟨fun k hk => ?_, fun h => absurd h hlength⟩
    obtain ⟨id, rfl⟩ : ∃ id, items = [id] := by
      match items, hne, hlength with
      | [id], _, _ => exact ⟨id, rfl⟩
      | _ :: _ :: _, _, h => simp at h
    have hall := drawnFrom_single source deckName draws (s := s) hsame
    generalize drawnFrom deckName (run source s draws).2 = ids at hk hall ⊢
    rw [length_singleton, Nat.mul_one] at hk ⊢
    rw [drop_eq_getElem_cons (by omega), take_succ_cons, take_zero, hall _ (getElem_mem _)]

/-- A source that always answers 0. -/
def firstIndex : RandomSource where
  randomInt := fun _ _ => 0
  lt := fun _ _ h => Nat.zero_lt_of_lt h

/-- Four draws from two ids. -/
theorem draws_fair_pair :
    let items := [js "a", js "b"]
    let ids := drawnFrom (js "combo")
      (run firstIndex ⟨[], 0⟩ (List.replicate 4 ⟨js "combo", items⟩)).2
    ids = [js "b", js "a", js "b", js "a"] ∧ (∀ k, (k + 1) * items.length ≤ ids.length →
        ((ids.drop (k * items.length)).take items.length).Perm items) ∧
      (2 ≤ items.length → ids.IsChain (· ≠ ·)) := by
  refine ⟨by decide, draws_fair firstIndex (js "combo") _ (by decide) (by decide) ?_ rfl⟩
  intro d hd _
  rw [eq_of_mem_replicate hd]

end Fair

/-! ## Members of the list -/

/-- Every deck was made for a list of `lists`, and has its ids. -/
def Made (lists : JsString → Set (List JsString)) (s : Decks) : Prop :=
  ∀ name deck, JsMap.get name s.decks = some deck →
    ∃ xs ∈ lists name, 2 ≤ xs.length ∧ deck.idsKey = idsKey xs ∧ deck.order.Perm xs

/-- Two lists of a deck with the same key have the same ids. -/
def KeysTell (lists : JsString → Set (List JsString)) : Prop :=
  ∀ name, ∀ xs ∈ lists name, ∀ ys ∈ lists name, 2 ≤ xs.length → 2 ≤ ys.length →
    idsKey xs = idsKey ys → ∀ x ∈ xs, x ∈ ys

theorem Made.draw {lists : JsString → Set (List JsString)} {s : Decks} (h : Made lists s)
    (htell : KeysTell lists) (source : RandomSource) {name : JsString} (hne : itemIds ≠ [])
    (hmem : itemIds ∈ lists name) :
    Made lists (getNextFromDeck source name itemIds s).2 ∧
      (getNextFromDeck source name itemIds s).1 ∈ itemIds := by
  by_cases hlength : 2 ≤ itemIds.length
  · rw [getNextFromDeck_eq source name hlength]
    rcases drawFromDeck_cases source name hne s with
      ⟨deck, id, hdeck, hkey, hid, hdraw⟩ | ⟨-, id, order, k, hid, horder, hdraw⟩
    · obtain ⟨xs, hxs, hxslength, hxskey, hperm⟩ := h name deck hdeck
      rw [hdraw]
      constructor
      · intro other deck' hget
        rcases get_set_cases hget with ⟨rfl, rfl⟩ | hget
        · exact ⟨xs, hxs, hxslength, hxskey, hperm⟩
        · exact h other deck' hget
      · exact htell name xs hxs itemIds hmem hxslength hlength (hxskey.symm.trans hkey) id
          (hperm.mem_iff.mp (mem_of_getElem? hid))
    · have hperm := reshuffle_perm source itemIds
        (lastUsedId (JsMap.get name s.decks) (idsKey itemIds)) s.calls
      rw [← horder] at hperm
      rw [hdraw]
      constructor
      · intro other deck' hget
        rcases get_set_cases hget with ⟨rfl, rfl⟩ | hget
        · exact ⟨itemIds, hmem, hlength, rfl, hperm⟩
        · exact h other deck' hget
      · exact hperm.mem_iff.mp (mem_of_mem_head? hid)
  · match itemIds, hne, hlength with
    | [id], _, _ => exact ⟨h, mem_singleton_self id⟩
    | _ :: _ :: _, _, h => simp at h

theorem made_run {lists : JsString → Set (List JsString)} (htell : KeysTell lists)
    (hnone : ∀ name, [] ∉ lists name) (source : RandomSource) (draws : List Draw)
    (hdraws : ∀ d ∈ draws, d.itemIds ∈ lists d.deckName) :
    Made lists (run source ⟨[], 0⟩ draws).1 ∧
      ∀ entry ∈ (run source ⟨[], 0⟩ draws).2, entry.2 ∈ entry.1.itemIds := by
  induction draws using List.reverseRecOn with
  | nil => exact ⟨fun _ _ hget => (nomatch hget), fun _ hentry => (nomatch hentry)⟩
  | append_singleton draws d ih =>
    obtain ⟨hmade, hmembers⟩ := ih fun d' hd' => hdraws d' (mem_append_left _ hd')
    have hmem := hdraws d mem_concat_self
    have hne : d.itemIds ≠ [] := fun hnil => hnone d.deckName (hnil ▸ hmem)
    obtain ⟨hmade', hid⟩ := hmade.draw htell source hne hmem
    rw [run_concat]
    refine ⟨hmade', fun entry hentry => ?_⟩
    rcases mem_append.mp hentry with hentry | hentry
    · exact hmembers entry hentry
    · rw [mem_singleton.mp hentry]
      exact hid

/-! ### Which id comes late -/

/-- A source that always answers the greatest number. -/
def lastIndex : RandomSource where
  randomInt := fun _ max => max - 1
  lt := fun _ max h => by omega

theorem shuffleLoop_lastIndex {α : Type} (i : Nat) (result : List α) (k : Nat) :
    (shuffleLoop lastIndex i result k).1 = result := by
  have hself : ∀ j, swap result j j = result := by
    intro j
    unfold swap
    split
    · rename_i x y hx hy
      rw [hx] at hy
      cases hy
      obtain ⟨hj, rfl⟩ := List.getElem?_eq_some_iff.mp hx
      rw [List.set_set, set_getElem_self]
    · rfl
  induction i generalizing k with
  | zero => rfl
  | succ i ih =>
    have hj : (secureRandomInt lastIndex (i + 2) k).1 = i + 1 := by
      rfl
    rw [shuffleLoop_succ, hj, hself]
    exact ih _

theorem getElem?_shuffleLoop {α : Type} {i m : Nat} (h : i < m) (result : List α) (k : Nat) :
    (shuffleLoop source i result k).1[m]? = result[m]? := by
  induction i generalizing result k with
  | zero => rfl
  | succ i ih =>
    have hj := secureRandomInt_lt source (show 0 < i + 2 by omega) k
    rw [shuffleLoop_succ, ih (by omega)]
    unfold swap
    split
    · rw [getElem?_set_ne (by omega), getElem?_set_ne (by omega)]
    · rfl

theorem exists_shuffle_late {xs : List JsString} (hlength : 2 ≤ xs.length) {x : JsString}
    (hx : x ∈ xs) :
    ∃ source p, 0 < p ∧ (fisherYatesShuffle source xs 0).1[p]? = some x := by
  obtain ⟨p, hp, rfl⟩ := mem_iff_getElem.mp hx
  rcases Nat.eq_zero_or_pos p with rfl | hpos
  · refine ⟨firstIndex, xs.length - 1, by omega, ?_⟩
    obtain ⟨n, hn⟩ : ∃ n, xs.length - 1 = n + 1 := ⟨xs.length - 2, by omega⟩
    have hj : (secureRandomInt firstIndex (n + 2) 0).1 = 0 := by
      rfl
    rw [fisherYatesShuffle, hn, shuffleLoop_succ, hj, getElem?_shuffleLoop firstIndex (by omega)]
    unfold swap
    rw [getElem?_eq_getElem (by omega : n + 1 < xs.length), getElem?_eq_getElem hp]
    rw [getElem?_set_ne (by omega), getElem?_set_self (by omega)]
  · refine ⟨lastIndex, p, hpos, ?_⟩
    rw [fisherYatesShuffle, shuffleLoop_lastIndex, getElem?_eq_getElem hp]

theorem run_replicate (name : JsString) {xs : List JsString} (hlength : 2 ≤ xs.length) {p : Nat}
    (hp : p < xs.length) :
    JsMap.get name (run source ⟨[], 0⟩ (List.replicate (p + 1) ⟨name, xs⟩)).1.decks =
      some ⟨(fisherYatesShuffle source xs 0).1, p + 1, idsKey xs⟩ := by
  have hne : xs ≠ [] := ne_nil_of_length_pos (by omega)
  induction p with
  | zero =>
    show JsMap.get name (getNextFromDeck source name xs ⟨[], 0⟩).2.decks = _
    rw [getNextFromDeck_eq source name hlength]
    rcases drawFromDeck_cases source name hne ⟨[], 0⟩ with
      ⟨deck, id, hdeck, -⟩ | ⟨-, id, order, k, -, horder, hdraw⟩
    · cases hdeck
    · rw [hdraw, get_set, if_pos rfl, horder]
      rfl
  | succ p ih =>
    have ih := ih (by omega)
    have horder := (fisherYatesShuffle_perm source xs 0).length_eq
    rw [replicate_succ', run_concat]
    show JsMap.get name (getNextFromDeck source name xs (run source ⟨[], 0⟩ _).1).2.decks = _
    rw [getNextFromDeck_eq source name hlength]
    rcases drawFromDeck_cases source name hne (run source ⟨[], 0⟩ (List.replicate (p + 1) _)).1 with
      ⟨deck, id, hdeck, hkey, hid, hdraw⟩ | ⟨hdone, -⟩
    · cases ih.symm.trans hdeck
      rw [hdraw, get_set, if_pos rfl]
    · have hexhausted := hdone _ ih rfl
      simp only at hexhausted
      omega

/-- Every id that is drawn is one of the list of its draw, in every run over these lists, if
and only if no list is empty and the keys tell the lists of a deck apart. -/
theorem draws_members_iff (lists : JsString → Set (List JsString)) :
    (∀ source draws, (∀ d ∈ draws, d.itemIds ∈ lists d.deckName) →
        ∀ entry ∈ (run source ⟨[], 0⟩ draws).2, entry.2 ∈ entry.1.itemIds) ↔
      (∀ name, [] ∉ lists name) ∧ KeysTell lists := by
  constructor
  · intro hall
    constructor
    · intro name hnil
      have hlists : ∀ d ∈ [(⟨name, []⟩ : Draw)], d.itemIds ∈ lists d.deckName := by
        intro d hd
        rw [mem_singleton.mp hd]
        exact hnil
      cases hall firstIndex _ hlists (⟨name, []⟩, js "") (mem_singleton_self _)
    · intro name xs hxs ys hys hxslength hyslength hkey x hx
      obtain ⟨source, p, hpos, hlate⟩ := exists_shuffle_late hxslength hx
      obtain ⟨hp, -⟩ := List.getElem?_eq_some_iff.mp hlate
      rw [(fisherYatesShuffle_perm source xs 0).length_eq] at hp
      obtain ⟨p, rfl⟩ : ∃ q, p = q + 1 := ⟨p - 1, by omega⟩
      -- the list is exchanged when the id is the next
      have hdeck := run_replicate source name hxslength (p := p) (by omega)
      refine hall source (List.replicate (p + 1) ⟨name, xs⟩ ++ [⟨name, ys⟩]) ?_ (⟨name, ys⟩, x) ?_
      · intro d hd
        rcases mem_append.mp hd with hd | hd
        · rw [eq_of_mem_replicate hd]
          exact hxs
        · rw [mem_singleton.mp hd]
          exact hys
      · rw [run_concat]
        refine mem_append_right _ (mem_singleton.mpr ?_)
        show _ = (_, (getNextFromDeck source name ys (run source ⟨[], 0⟩ _).1).1)
        rw [getNextFromDeck_eq source name hyslength]
        rcases drawFromDeck_cases source name (ne_nil_of_length_pos (by omega) : ys ≠ [])
            (run source ⟨[], 0⟩ (List.replicate (p + 1) ⟨name, xs⟩)).1 with
          ⟨deck, id, hget, -, hid, hdraw⟩ | ⟨hdone, -⟩
        · cases hdeck.symm.trans hget
          cases hlate.symm.trans hid
          rw [hdraw]
        · have hexhausted := hdone _ hdeck hkey
          simp only [(fisherYatesShuffle_perm source xs 0).length_eq] at hexhausted
          omega
  · rintro ⟨hnone, htell⟩ source draws hdraws
    exact (made_run htell hnone source draws hdraws).2

/-- `a,b` and `c` have the same key as `a` and `b,c`. -/
theorem draws_stale :
    let draws := [⟨js "combo", [js "a,b", js "c"]⟩, ⟨js "combo", [js "a", js "b,c"]⟩]
    (run lastIndex ⟨[], 0⟩ draws).2.map Prod.snd = [js "a,b", js "c"] ∧
      js "c" ∉ [js "a", js "b,c"] := by
  decide

end RedRouter.Shared
