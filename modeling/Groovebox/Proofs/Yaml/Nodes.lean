import Groovebox.Proofs.Yaml.Blocks
import Groovebox.Yaml.Node

/-! The node of a tree, which the parser makes of the tree's tokens. No tags or anchors stand
in it. -/

namespace Groovebox.Yaml

mutual

def nodeOf : Tree → Node
  | .null => .scalar none .plain "null"
  | .bool true => .scalar none .plain "true"
  | .bool false => .scalar none .plain "false"
  | .number n => .scalar none .plain (toString n)
  | .text s => .scalar none (styleOf s) s
  | .list items => .sequence none (nodesOf items)
  | .record entries => .mapping none (pairsOf entries)

def nodesOf : List Tree → List Node
  | [] => []
  | item :: rest => nodeOf item :: nodesOf rest

def pairsOf : List (String × Tree) → List (Node × Node)
  | [] => []
  | (key, value) :: rest => (.scalar none (styleOf key) key, nodeOf value) :: pairsOf rest

end

variable {α : Type} {fuel : Nat} {indentless : Bool} {tokens rest : List Token} {t : Token}

/-- The parser takes the tokens and makes `a` of them. -/
def Takes (parse : Parse α) (tokens rest : List Token) (a : α) : Prop :=
  ∀ source : Source, parse.run { source with tokens := tokens ++ rest } =
    some (a, { source with tokens := rest })

theorem takes_scalar (style : Style) (text : String) :
    Takes (node (fuel + 1) true indentless) [.scalar style text] rest (.scalar none style text) :=
  fun _ => rfl

theorem takes_emptyList :
    Takes (node (fuel + 2) true indentless) [.flowSequence, .flowSequenceEnd] rest
      (.sequence none []) :=
  fun _ => rfl

theorem takes_emptyRecord :
    Takes (node (fuel + 2) true indentless) [.flowMapping, .flowMappingEnd] rest
      (.mapping none []) :=
  fun _ => rfl

theorem takes_sequence {items : List Node} (h : Takes (listItems fuel false) tokens rest items) :
    Takes (node (fuel + 1) true indentless) (.blockSequence :: tokens) rest
      (.sequence none items) := by
  intro source
  have hnode : (node (fuel + 1) true indentless).run
      { source with tokens := .blockSequence :: tokens ++ rest } =
        ((listItems fuel false).run { source with tokens := tokens ++ rest }).bind
          fun r => some (.sequence none r.1, r.2) := rfl
  rw [hnode, h source]
  rfl

theorem takes_indentless {items : List Node}
    (h : Takes (listItems fuel true) (.blockEntry :: tokens) rest items) :
    Takes (node (fuel + 1) true true) (.blockEntry :: tokens) rest (.sequence none items) := by
  intro source
  have hnode : (node (fuel + 1) true true).run
      { source with tokens := .blockEntry :: tokens ++ rest } =
        ((listItems fuel true).run { source with tokens := .blockEntry :: tokens ++ rest }).bind
          fun r => some (.sequence none r.1, r.2) := rfl
  rw [hnode, h source]
  rfl

theorem takes_mapping {entries : List (Node × Node)}
    (h : Takes (blockEntries fuel) tokens rest entries) :
    Takes (node (fuel + 1) true indentless) (.blockMapping :: tokens) rest
      (.mapping none entries) := by
  intro source
  have hnode : (node (fuel + 1) true indentless).run
      { source with tokens := .blockMapping :: tokens ++ rest } =
        ((blockEntries fuel).run { source with tokens := tokens ++ rest }).bind
          fun r => some (.mapping none r.1, r.2) := rfl
  rw [hnode, h source]
  rfl

theorem takes_node {ends : List Token} {n : Node} (ht : t ∉ ends)
    (h : Takes (node fuel true indentless) (t :: tokens) rest n) :
    Takes (nodeOrEmpty (fuel + 1) true indentless ends) (t :: tokens) rest n := by
  intro source
  rw [nodeOrEmpty]
  have hnode : (do
      if endsNode ends (← peek) then return empty
      else node fuel true indentless : Parse Node).run
        { source with tokens := t :: tokens ++ rest } =
      (if endsNode ends (some t) then return empty
        else node fuel true indentless : Parse Node).run
          { source with tokens := t :: tokens ++ rest } := rfl
  rw [hnode, endsNode, Option.all_some, decide_eq_false ht]
  exact h source

theorem takes_endOfItems : Takes (listItems (fuel + 1) false) [.blockEnd] rest [] :=
  fun _ => rfl

theorem takes_lastItem (h : rest.head? ≠ some .blockEntry) :
    Takes (listItems (fuel + 1) true) [] rest [] := by
  intro source
  cases rest with
  | nil => rfl
  | cons t rest =>
    have ht : t ≠ .blockEntry := by simpa using h
    have htakes : (takes .blockEntry).run { source with tokens := t :: rest } =
        some (false, { source with tokens := t :: rest }) := by
      have heq : (takes .blockEntry).run { source with tokens := t :: rest } =
          (if some t = some .blockEntry then do
            advance
            return true
          else return false : Parse Bool).run { source with tokens := t :: rest } := rfl
      rw [heq, if_neg (by simpa using ht)]
      rfl
    have hitems : (listItems (fuel + 1) true).run { source with tokens := t :: rest } =
        ((takes .blockEntry).run { source with tokens := t :: rest }).bind fun r =>
          (if r.1 then do
            let item ← nodeOrEmpty fuel true false [.blockEntry, .key, .value, .blockEnd]
            return item :: (← listItems fuel true)
          else return [] : Parse (List Node)).run r.2 := rfl
    rw [List.nil_append, hitems, htakes]
    rfl

/-- The tokens that end an item without a node. -/
def itemEnds (indentless : Bool) : List Token :=
  if indentless then [.blockEntry, .key, .value, .blockEnd] else [.blockEntry, .blockEnd]

theorem takes_item {others : List Token} {item : Node} {items : List Node}
    (hitem : Takes (nodeOrEmpty fuel true false (itemEnds indentless)) tokens (others ++ rest) item)
    (hitems : Takes (listItems fuel indentless) others rest items) :
    Takes (listItems (fuel + 1) indentless) (.blockEntry :: (tokens ++ others)) rest
      (item :: items) := by
  intro source
  have heq : (listItems (fuel + 1) indentless).run
      { source with tokens := .blockEntry :: (tokens ++ others) ++ rest } =
        ((nodeOrEmpty fuel true false (itemEnds indentless)).run
          { source with tokens := tokens ++ others ++ rest }).bind fun r =>
            ((listItems fuel indentless).run r.2).bind fun q => some (r.1 :: q.1, q.2) := rfl
  rw [heq, List.append_assoc, hitem source, Option.bind_some, hitems source]
  rfl

def entryEnds : List Token := [.key, .value, .blockEnd]

theorem takes_entry {behind others : List Token} {key value : Node} {entries : List (Node × Node)}
    (hkey : Takes (nodeOrEmpty fuel true true entryEnds) tokens
      (.value :: (behind ++ (others ++ rest))) key)
    (hvalue : Takes (nodeOrEmpty fuel true true entryEnds) behind (others ++ rest) value)
    (hentries : Takes (blockEntries fuel) others rest entries) :
    Takes (blockEntries (fuel + 1)) (.key :: (tokens ++ .value :: (behind ++ others))) rest
      ((key, value) :: entries) := by
  intro source
  have heq : (blockEntries (fuel + 1)).run
      { source with tokens := .key :: (tokens ++ .value :: (behind ++ others)) ++ rest } =
        ((nodeOrEmpty fuel true true entryEnds).run
          { source with tokens := tokens ++ .value :: (behind ++ others) ++ rest }).bind fun r =>
            ((takes .value).run r.2).bind fun p =>
              (if p.1 then do
                let value ← nodeOrEmpty fuel true true entryEnds
                return (r.1, value) :: (← blockEntries fuel)
              else do
                let value ← pure empty
                return (r.1, value) :: (← blockEntries fuel) : Parse (List (Node × Node))).run
                p.2 := rfl
  have hcolon : (takes .value).run
      { source with tokens := .value :: (behind ++ (others ++ rest)) } =
      some (true, { source with tokens := behind ++ (others ++ rest) }) := rfl
  have hlast : ∀ s : Source, (do
      let value ← nodeOrEmpty fuel true true entryEnds
      return (key, value) :: (← blockEntries fuel) : Parse (List (Node × Node))).run s =
        ((nodeOrEmpty fuel true true entryEnds).run s).bind fun v =>
          ((blockEntries fuel).run v.2).bind fun q => some ((key, v.1) :: q.1, q.2) := fun _ => rfl
  rw [heq, List.append_assoc, List.cons_append, List.append_assoc, hkey source, Option.bind_some,
    hcolon, Option.bind_some, if_pos rfl, hlast, hvalue source, Option.bind_some, hentries source]
  rfl

theorem takes_endOfEntries : Takes (blockEntries (fuel + 1)) [.blockEnd] rest [] :=
  fun _ => rfl

/-- The first token of a tree ends no node. Only a list without an indent of its own begins
with an item. -/
theorem exists_head_blockTokens (indentless : Bool) (tree : Tree) :
    ∃ t tokens, blockTokens indentless tree = t :: tokens ∧ t ∉ entryEnds ∧
      (indentless = false → t ∉ itemEnds true) := by
  match tree with
  | .null | .bool true | .bool false | .number _ | .text _ | .list [] | .record []
  | .record (_ :: _) =>
    exact ⟨_, _, rfl, by simp [entryEnds], by simp [itemEnds]⟩
  | .list (item :: rest) =>
    rw [blockTokens]
    cases indentless with
    | false => exact ⟨_, _, rfl, by simp [entryEnds], by simp [itemEnds]⟩
    | true => exact ⟨_, _, rfl, by simp [entryEnds], nofun⟩

theorem not_mem_itemEnds (h : t ∉ itemEnds true) : t ∉ itemEnds indentless := by
  cases indentless with
  | true => exact h
  | false =>
    simp only [itemEnds, if_true, List.mem_cons, not_or] at h
    simp [itemEnds, h]

theorem takes_entryNode {tree : Tree} {n : Node}
    (h : Takes (node fuel true true) (blockTokens indentless tree) rest n) :
    Takes (nodeOrEmpty (fuel + 1) true true entryEnds) (blockTokens indentless tree) rest n := by
  obtain ⟨t, tokens, heq, ht, -⟩ := exists_head_blockTokens indentless tree
  rw [heq] at h ⊢
  exact takes_node ht h

theorem takes_itemNode {tree : Tree} {n : Node}
    (h : Takes (node fuel true false) (blockTokens false tree) rest n) :
    Takes (nodeOrEmpty (fuel + 1) true false (itemEnds indentless)) (blockTokens false tree)
      rest n := by
  obtain ⟨t, tokens, heq, -, ht⟩ := exists_head_blockTokens false tree
  rw [heq] at h ⊢
  exact takes_node (not_mem_itemEnds (ht rfl)) h

theorem head?_entriesTokens_ne (entries : List (String × Tree)) :
    (entriesTokens entries ++ .blockEnd :: rest).head? ≠ some .blockEntry := by
  cases entries with
  | nil => simp [entriesTokens]
  | cons entry entries => simp [entriesTokens]

/-- The token that ends a list with an indent of its own. -/
def itemsEnd (indentless : Bool) : List Token := if indentless then [] else [.blockEnd]

-- A token takes no more than three calls: of a node, of an item that may have none, of a list.
mutual

theorem takes_blockTokens : ∀ (tree : Tree) (indentless allowed : Bool) {fuel : Nat}
    {rest : List Token}, 3 * (blockTokens indentless tree).length ≤ fuel →
    (indentless → allowed = true ∧ rest.head? ≠ some .blockEntry) →
    Takes (node fuel true allowed) (blockTokens indentless tree) rest (nodeOf tree)
  | .null, _, _, fuel + 1, _, _, _ => takes_scalar .plain "null"
  | .bool true, _, _, fuel + 1, _, _, _ => takes_scalar .plain "true"
  | .bool false, _, _, fuel + 1, _, _, _ => takes_scalar .plain "false"
  | .number n, _, _, fuel + 1, _, _, _ => takes_scalar .plain (toString n)
  | .text s, _, _, fuel + 1, _, _, _ => takes_scalar (styleOf s) s
  | .list [], _, _, fuel + 2, _, _, _ => takes_emptyList
  | .record [], _, _, fuel + 2, _, _, _ => takes_emptyRecord
  | .list (item :: items), true, allowed, fuel + 1, rest, hfuel, hrest => by
    obtain ⟨rfl, hhead⟩ := hrest rfl
    rw [blockTokens, if_pos rfl] at hfuel ⊢
    have hpos : 0 < fuel := by
      rw [itemsTokens, List.length_cons] at hfuel
      omega
    have hitems := takes_itemsTokens (item :: items) true hfuel hpos fun _ => hhead
    rw [itemsEnd, if_pos rfl, List.append_nil] at hitems
    exact takes_indentless hitems
  | .list (item :: items), false, allowed, fuel + 1, rest, hfuel, hrest => by
    rw [blockTokens, if_neg Bool.false_ne_true] at hfuel ⊢
    rw [List.length_cons, List.length_append, List.length_singleton] at hfuel
    exact takes_sequence (takes_itemsTokens (item :: items) false (by omega) (by omega) nofun)
  | .record (entry :: entries), _, allowed, fuel + 1, rest, hfuel, _ => by
    rw [blockTokens] at hfuel ⊢
    rw [List.length_cons, List.length_append, List.length_singleton] at hfuel
    exact takes_mapping (takes_entriesTokens (entry :: entries) (by omega) (by omega))

theorem takes_itemsTokens : ∀ (items : List Tree) (indentless : Bool) {fuel : Nat}
    {rest : List Token}, 3 * (itemsTokens items).length ≤ fuel + 1 → 0 < fuel →
    (indentless → rest.head? ≠ some .blockEntry) →
    Takes (listItems fuel indentless) (itemsTokens items ++ itemsEnd indentless) rest
      (nodesOf items)
  | [], true, fuel + 1, rest, _, _, hrest => takes_lastItem (hrest rfl)
  | [], false, fuel + 1, rest, _, _, _ => takes_endOfItems
  | item :: items, indentless, fuel + 1, rest, hfuel, _, hrest => by
    rw [itemsTokens, List.length_cons, List.length_append] at hfuel
    obtain ⟨fuel, rfl⟩ := Nat.exists_eq_add_of_le' (show 1 ≤ fuel by omega)
    rw [itemsTokens, List.cons_append, List.append_assoc]
    exact takes_item (takes_itemNode (takes_blockTokens item false false (by omega) nofun))
      (takes_itemsTokens items indentless (by omega) (by omega) hrest)

theorem takes_entriesTokens : ∀ (entries : List (String × Tree)) {fuel : Nat}
    {rest : List Token}, 3 * (entriesTokens entries).length ≤ fuel + 1 → 0 < fuel →
    Takes (blockEntries fuel) (entriesTokens entries ++ [.blockEnd]) rest (pairsOf entries)
  | [], fuel + 1, rest, _, _ => takes_endOfEntries
  | (key, value) :: entries, fuel + 1, rest, hfuel, _ => by
    simp only [entriesTokens, List.length_cons, List.length_append] at hfuel
    obtain ⟨fuel, rfl⟩ := Nat.exists_eq_add_of_le' (show 2 ≤ fuel by omega)
    have hkey : ∀ behind, Takes (nodeOrEmpty (fuel + 2) true true entryEnds)
        [.scalar (styleOf key) key] behind (.scalar none (styleOf key) key) :=
      fun _ => takes_node (by simp [entryEnds]) (takes_scalar _ key)
    have hhead : (entriesTokens entries ++ [Token.blockEnd] ++ rest).head? ≠ some .blockEntry := by
      rw [List.append_assoc]
      exact head?_entriesTokens_ne entries
    have hvalue := takes_entryNode
      (takes_blockTokens value (isSimpleKey key) true (show _ ≤ fuel + 1 by omega)
        fun _ => ⟨rfl, hhead⟩)
    have hentries : Takes (blockEntries (fuel + 2)) (entriesTokens entries ++ [.blockEnd]) rest
        (pairsOf entries) := takes_entriesTokens entries (by omega) (by omega)
    simpa only [entriesTokens, pairsOf, List.cons_append, List.append_assoc, List.nil_append] using
      takes_entry (hkey _) hvalue hentries

end

theorem document?_of_takes {n : Node}
    (h : Takes (node (3 * (.blockMapping :: tokens : List Token).length + 3) true false)
      (.blockMapping :: tokens) [] n) : document? (.blockMapping :: tokens) = some ⟨n, []⟩ := by
  have hparse := h { tokens := [], handles := commonHandles }
  rw [List.append_nil] at hparse
  have hdocument : document? (.blockMapping :: tokens) =
      ((node (3 * (.blockMapping :: tokens : List Token).length + 3) true false).run
        { tokens := .blockMapping :: tokens, handles := commonHandles }).bind fun r =>
          if (r.2.tokens.dropWhile (· = .documentEnd)).isEmpty then some ⟨r.1, r.2.byNumber⟩
          else none := rfl
  rw [hdocument, hparse]
  rfl

theorem document?_blockTokens (entry : String × Tree) (entries : List (String × Tree)) :
    document? (blockTokens false (.record (entry :: entries))) =
      some ⟨nodeOf (.record (entry :: entries)), []⟩ := by
  have htakes : Takes (node (3 * (blockTokens false (.record (entry :: entries))).length + 3) true
      false) (blockTokens false (.record (entry :: entries))) [] _ :=
    takes_blockTokens _ false false (Nat.le_add_right _ 3) nofun
  rw [blockTokens] at htakes ⊢
  exact document?_of_takes htakes

end Groovebox.Yaml
