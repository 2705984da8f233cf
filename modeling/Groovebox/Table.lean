/-! Tables from ids to values. The entries are kept in strictly increasing order
of their ids, so two tables with the same lookups are equal, and listing a table
goes through it in the order of ids. -/

namespace Groovebox

/-- The id order of entries: each id comes before all later ones. -/
def Ascending {α : Type} (entries : List (String × α)) : Prop :=
  entries.Pairwise fun a b => a.1 < b.1

structure Table (α : Type) where
  entries : List (String × α)
  ascending : Ascending entries

namespace Table

variable {α : Type}

instance [DecidableEq α] : DecidableEq (Table α) := fun s t =>
  if h : s.entries = t.entries then
    isTrue (by cases s; cases t; cases h; rfl)
  else
    isFalse fun e => h (congrArg entries e)

def empty : Table α := ⟨[], .nil⟩

instance : EmptyCollection (Table α) := ⟨empty⟩
instance : Inhabited (Table α) := ⟨empty⟩

def find? (t : Table α) (id : String) : Option α := t.entries.lookup id

def keys (t : Table α) : List String := t.entries.map (·.1)

def size (t : Table α) : Nat := t.entries.length

/-- The entry goes to its place in the order, over an entry of the same id. -/
def insertEntry (id : String) (a : α) : List (String × α) → List (String × α)
  | [] => [(id, a)]
  | (k, b) :: rest =>
    if id < k then (id, a) :: (k, b) :: rest
    else if id = k then (id, a) :: rest
    else (k, b) :: insertEntry id a rest

theorem mem_insertEntry {id : String} {a : α} {entries : List (String × α)} {e : String × α}
    (h : e ∈ insertEntry id a entries) : e = (id, a) ∨ e ∈ entries := by
  induction entries with
  | nil => simpa [insertEntry] using h
  | cons head rest ih =>
    obtain ⟨k, b⟩ := head
    simp only [insertEntry] at h
    split at h
    · simpa using h
    · split at h
      · rcases List.mem_cons.mp h with h | h
        · exact .inl h
        · exact .inr (List.mem_cons_of_mem _ h)
      · rcases List.mem_cons.mp h with h | h
        · exact .inr (h ▸ List.mem_cons_self)
        · exact (ih h).imp_right (List.mem_cons_of_mem _)

theorem ascending_insertEntry (id : String) (a : α) {entries : List (String × α)}
    (h : Ascending entries) : Ascending (insertEntry id a entries) := by
  induction entries with
  | nil => exact List.pairwise_singleton _ _
  | cons head rest ih =>
    obtain ⟨k, b⟩ := head
    obtain ⟨hk, hr⟩ := List.pairwise_cons.mp h
    simp only [insertEntry]
    split
    · next hlt =>
      refine List.pairwise_cons.mpr ⟨fun e he => ?_, h⟩
      rcases List.mem_cons.mp he with rfl | he
      · exact hlt
      · exact String.lt_trans hlt (hk e he)
    · next hlt =>
      split
      · next heq =>
        subst heq
        exact List.pairwise_cons.mpr ⟨hk, hr⟩
      · next hne =>
        refine List.pairwise_cons.mpr ⟨fun e he => ?_, ih hr⟩
        rcases mem_insertEntry he with rfl | he
        · exact Std.lt_of_le_of_ne (String.not_lt.mp hlt) (Ne.symm hne)
        · exact hk e he

def insert (t : Table α) (id : String) (a : α) : Table α :=
  ⟨insertEntry id a t.entries, ascending_insertEntry id a t.ascending⟩

/-- Of entries with one id the last one stays. -/
def ofList (entries : List (String × α)) : Table α :=
  entries.foldl (fun t e => t.insert e.1 e.2) empty

theorem lookup_cons_eq (k j : String) (b : α) (rest : List (String × α)) :
    ((j, b) :: rest).lookup k = if k = j then some b else rest.lookup k := by
  by_cases h : k = j
  · subst h
    simp
  · simp [h, List.lookup_cons, beq_false_of_ne h]

theorem lookup_insertEntry (id k : String) (a : α) (entries : List (String × α)) :
    (insertEntry id a entries).lookup k = if k = id then some a else entries.lookup k := by
  induction entries with
  | nil => simp [insertEntry, lookup_cons_eq]
  | cons head rest ih =>
    obtain ⟨j, b⟩ := head
    simp only [insertEntry]
    split
    · simp only [lookup_cons_eq]
    · split
      · next heq =>
        subst heq
        simp only [lookup_cons_eq]
        split <;> rfl
      · next hne =>
        simp only [lookup_cons_eq, ih]
        by_cases hk : k = j
        · subst hk
          simp [Ne.symm hne]
        · simp [hk]

theorem find?_insert (t : Table α) (id k : String) (a : α) :
    (t.insert id a).find? k = if k = id then some a else t.find? k :=
  lookup_insertEntry id k a t.entries

theorem lt_of_lookup {k id : String} {a : α} {entries : List (String × α)}
    (hk : ∀ e ∈ entries, k < e.1) (h : entries.lookup id = some a) : k < id := by
  induction entries with
  | nil => simp at h
  | cons head rest ih =>
    obtain ⟨j, b⟩ := head
    rw [lookup_cons_eq] at h
    split at h
    · next heq =>
      subst heq
      exact hk _ List.mem_cons_self
    · exact ih (fun e he => hk e (List.mem_cons_of_mem _ he)) h

theorem insertEntry_of_lookup {id : String} {a b : α} {entries : List (String × α)}
    (hs : Ascending entries) (h : entries.lookup id = some b) :
    (insertEntry id a entries).map (·.1) = entries.map (·.1) ∧
      (a = b → insertEntry id a entries = entries) := by
  induction entries with
  | nil => simp at h
  | cons head rest ih =>
    obtain ⟨k, c⟩ := head
    obtain ⟨hk, hr⟩ := List.pairwise_cons.mp hs
    rw [lookup_cons_eq] at h
    by_cases heq : id = k
    · subst heq
      simp_all [insertEntry]
    · rw [if_neg heq] at h
      have hlt : ¬id < k := fun hlt => String.lt_irrefl _ (String.lt_trans hlt (lt_of_lookup hk h))
      obtain ⟨h₁, h₂⟩ := ih hr h
      simp only [insertEntry, hlt, heq, if_false, List.map_cons, h₁, true_and]
      exact fun hab => by rw [h₂ hab]

theorem keys_insert {t : Table α} {id : String} {a b : α} (h : t.find? id = some b) :
    (t.insert id a).keys = t.keys := (insertEntry_of_lookup t.ascending h).1

theorem size_insert {t : Table α} {id : String} {a b : α} (h : t.find? id = some b) :
    (t.insert id a).size = t.size := by
  simpa [keys, size] using congrArg List.length (keys_insert (a := a) h)

theorem insert_self {t : Table α} {id : String} {a : α} (h : t.find? id = some a) :
    t.insert id a = t := by
  obtain ⟨entries, hs⟩ := t
  have hh := (insertEntry_of_lookup (a := a) hs h).2 rfl
  simp only [insert, hh]

end Table

end Groovebox
