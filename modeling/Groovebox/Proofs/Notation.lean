import Groovebox.Proofs.Grammar

/-! The notation read back. Every sequence of items that the notation has a form for is what
its written form is read as, and nothing but such items is ever read. -/

namespace Groovebox

open Text

/-- The notation has a form for the item. -/
def Item.IsWritable : Item → Prop
  | .pad index => index.toNat < padCount
  | .pause steps => 0 < steps.toNat
  | .call name => name.id ≠ "" ∧ ∀ c ∈ name.id.toList, Notation.isIdChar c

theorem Item.toList_written (item : Item) :
    item.written.toList = match item with
      | .pad index => 'p' :: Nat.toDigits 10 index.toNat
      | .pause steps => '~' :: Nat.toDigits 10 steps.toNat
      | .call ⟨.group, id⟩ => '[' :: (id.toList ++ [']'])
      | .call ⟨.super, id⟩ => '\x7b' :: (id.toList ++ ['\x7d']) := by
  cases item with
  | pad index =>
    simp only [written, String.toList_append, Nat.toString_eq_repr, Nat.toList_repr]
    rfl
  | pause steps =>
    simp only [written, String.toList_append, Nat.toString_eq_repr, Nat.toList_repr]
    rfl
  | call name =>
    obtain ⟨kind, id⟩ := name
    cases kind <;> simp [written]

namespace Notation

variable {text rest word : List Char} {item : Item} {items : List Item}

theorem isId_iff {id : String} : IsId id.toList ↔ id ≠ "" ∧ ∀ c ∈ id.toList, isIdChar c := by
  constructor
  · intro h
    exact ⟨by simpa using h.ne_nil, fun c hc => isIdChar_iff.mpr (h.allowed c hc)⟩
  · rintro ⟨hne, hid⟩
    exact ⟨by simpa using hne, fun c hc => isIdChar_iff.mp (hid c hc)⟩

theorem standsFor_written (h : item.IsWritable) (hend : EndsItem rest) :
    StandsFor rest item.written.toList item := by
  rw [Item.toList_written]
  cases item with
  | pad index =>
    have hstands := StandsFor.pad (.inl rfl) (isNumeral_toDigits index.toNat) h hend
    rwa [UInt8.ofNat_toNat] at hstands
  | pause steps =>
    have hmax : steps.toNat ≤ maxStep := Nat.le_of_lt_succ steps.toNat_lt
    have hstands := StandsFor.pause (isNumeral_toDigits steps.toNat) h hmax hend
    rwa [UInt32.ofNat_toNat] at hstands
  | call name =>
    obtain ⟨kind, id⟩ := name
    cases kind with
    | group => exact .group (isId_iff.mpr h)
    | super => exact .super (isId_iff.mpr h)

theorem spells_writeSequence (h : ∀ item ∈ items, item.IsWritable) :
    Spells (writeSequence items).toList items := by
  induction items with
  | nil => exact .done
  | cons item items ih =>
    obtain ⟨hitem, hitems⟩ := List.forall_mem_cons.mp h
    cases items with
    | nil =>
      have hend : EndsItem [] := nofun
      have hone := Spells.item (standsFor_written hitem hend) .done
      rwa [List.append_nil] at hone
    | cons second more =>
      have hchars : (writeSequence (item :: second :: more)).toList =
          item.written.toList ++ ' ' :: (writeSequence (second :: more)).toList := by
        simp [writeSequence, String.intercalate_cons_cons]
      have hend : EndsItem (' ' :: (writeSequence (second :: more)).toList) := by
        intro c hc
        obtain rfl := Option.some.inj hc
        exact .inr (.inr rfl)
      rw [hchars]
      exact .item (standsFor_written hitem hend) (.blank rfl (ih hitems))

/-! What is read. -/

theorem StandsFor.isWritable (h : StandsFor rest word item) : item.IsWritable := by
  cases h with
  | @pad letter digits n hletter hnumeral hrange hend =>
    have hsize : n < UInt8.size := by
      simp only [padCount, UInt8.size] at hrange ⊢
      omega
    rwa [Item.IsWritable, UInt8.toNat_ofNat_of_lt' hsize]
  | lonePause hend => exact show 0 < (UInt32.ofNat quantum).toNat by decide
  | pause hnumeral hpos hmax hend =>
    rwa [Item.IsWritable, UInt32.toNat_ofNat_of_lt' (Nat.lt_succ_of_le hmax)]
  | group hid => exact isId_iff.mp hid
  | super hid => exact isId_iff.mp hid

theorem Spells.isWritable (h : Spells text items) : ∀ item ∈ items, item.IsWritable := by
  induction h with
  | done => exact nofun
  | blank hblank hrest ih => exact ih
  | bar hrest ih => exact ih
  | comment hremark hrest ih => exact ih
  | lastComment hremark => exact nofun
  | item hstands hrest ih => exact List.forall_mem_cons.mpr ⟨hstands.isWritable, ih⟩

end Notation

theorem parseSequence_writeSequence {items : List Item} (h : ∀ item ∈ items, item.IsWritable) :
    parseSequence (writeSequence items) = .ok items :=
  Notation.parseFrom_of_spells (Notation.spells_writeSequence h) 0

theorem isWritable_of_parseSequence {text : String} {items : List Item}
    (h : parseSequence text = .ok items) : ∀ item ∈ items, item.IsWritable :=
  (Notation.spells_of_parseFrom h).isWritable

theorem isWritable_of_parseItem {text : String} {item : Item} (h : parseItem text = .ok item) :
    item.IsWritable := by
  unfold parseItem at h
  split at h
  · cases h
  · split at h
    · cases h
    · next hread =>
      split at h
      · obtain rfl := Except.ok.inj h
        obtain ⟨_, _, -, -, hstands⟩ := Notation.exists_of_readItem hread
        exact hstands.isWritable
      · cases h

/-- Items are read back from what is written for them where each has a form, and only there.
What is read from a text has a form, whatever the text is. -/
theorem parseSequence_writeSequence_iff :
    (∀ items, parseSequence (writeSequence items) = .ok items ↔
      ∀ item ∈ items, item.IsWritable) ∧
    ∀ text items, parseSequence text = .ok items →
      (∀ item ∈ items, item.IsWritable) ∧ parseSequence (writeSequence items) = .ok items := by
  refine ⟨fun items => ⟨isWritable_of_parseSequence, parseSequence_writeSequence⟩, ?_⟩
  intro text items h
  have hwritable := isWritable_of_parseSequence h
  exact ⟨hwritable, parseSequence_writeSequence hwritable⟩

/-- The longest pause there is, typed with a zero in front. -/
theorem parseSequence_writeSequence_iff_of_longest_pause :
    let items : List Item := [.pause 4294967295, .call ⟨.super, "s_1"⟩]
    parseSequence "~04294967295|\x7bs_1\x7d" = .ok items ∧
      (∀ item ∈ items, item.IsWritable) ∧ parseSequence (writeSequence items) = .ok items := by
  intro items
  have hpause : Notation.parseFrom 0 "~04294967295|\x7bs_1\x7d".toList =
      (Notation.parseFrom 12 "|\x7bs_1\x7d".toList).map (.pause 4294967295 :: ·) := by
    rw [Notation.parseFrom_eq]
    rfl
  have hcall : Notation.parseFrom 12 "|\x7bs_1\x7d".toList =
      (Notation.parseFrom 18 []).map (.call ⟨.super, "s_1"⟩ :: ·) := by
    rw [Notation.parseFrom_eq]
    rfl
  have hread : parseSequence "~04294967295|\x7bs_1\x7d" = .ok items := by
    rw [parseSequence, hpause, hcall, Notation.parseFrom_of_spells .done]
    rfl
  exact ⟨hread, parseSequence_writeSequence_iff.2 _ items hread⟩

end Groovebox
