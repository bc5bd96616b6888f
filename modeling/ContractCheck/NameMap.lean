/-!
Finite maps from names, kept in strictly ascending order of name (by code point), so that two maps
with the same entries are the same map. The main statements are `get?_insert`, which says what an
insertion does to a look-up, and `ext_get?`, by which a map is its look-ups.
-/

namespace ContractCheck

structure NameMap (α : Type) where
  entries : List (String × α)
  sorted : entries.Pairwise (·.1 < ·.1)

namespace NameMap

variable {α β : Type}

def insertEntry (name : String) (value : α) : List (String × α) → List (String × α)
  | [] => [(name, value)]
  | entry :: rest =>
    if name < entry.1 then (name, value) :: entry :: rest
    else if entry.1 < name then entry :: insertEntry name value rest
    else (name, value) :: rest

theorem mem_insertEntry {name : String} {value : α} {l : List (String × α)} {e : String × α}
    (h : e ∈ insertEntry name value l) : e = (name, value) ∨ e ∈ l := by
  induction l with
  | nil => simpa [insertEntry] using h
  | cons head rest ih =>
    rw [insertEntry] at h
    split at h
    · simpa using h
    · split at h
      · rcases List.mem_cons.1 h with h | h
        · exact .inr (h ▸ List.mem_cons_self)
        · exact (ih h).imp_right (List.mem_cons_of_mem _)
      · exact (List.mem_cons.1 h).imp_right (List.mem_cons_of_mem _)

theorem sorted_insertEntry (name : String) (value : α) {l : List (String × α)}
    (h : l.Pairwise (·.1 < ·.1)) : (insertEntry name value l).Pairwise (·.1 < ·.1) := by
  induction l with
  | nil => simp [insertEntry]
  | cons head rest ih =>
    obtain ⟨hhead, hrest⟩ := List.pairwise_cons.1 h
    rw [insertEntry]
    split
    · rename_i hlt
      refine List.pairwise_cons.2 ⟨fun e he => ?_, h⟩
      rcases List.mem_cons.1 he with rfl | he
      · exact hlt
      · exact String.lt_trans hlt (hhead e he)
    · split
      · rename_i hlt
        refine List.pairwise_cons.2 ⟨fun e he => ?_, ih hrest⟩
        rcases mem_insertEntry he with rfl | he
        · exact hlt
        · exact hhead e he
      · rename_i hle hge
        have heq : head.1 = name :=
          String.le_antisymm (String.not_lt.1 hle) (String.not_lt.1 hge)
        exact List.pairwise_cons.2 ⟨fun e he => heq ▸ hhead e he, hrest⟩

theorem lookup_cons (name : String) (e : String × α) (l : List (String × α)) :
    (e :: l).lookup name = if name = e.1 then some e.2 else l.lookup name := by
  have h : (e :: l).lookup name = match name == e.1 with
      | true => some e.2
      | false => l.lookup name := rfl
  rw [h]
  by_cases h : name = e.1
  · simp [h]
  · simp [h, beq_eq_false_iff_ne.2 h]

theorem lookup_insertEntry (name other : String) (value : α) (l : List (String × α)) :
    (insertEntry name value l).lookup other =
      if other = name then some value else l.lookup other := by
  induction l with
  | nil => simp [insertEntry, lookup_cons]
  | cons head rest ih =>
    rw [insertEntry]
    split
    · rw [lookup_cons]
    · split
      · rename_i hlt
        have hne : name ≠ head.1 := fun heq => String.lt_irrefl _ (heq ▸ hlt)
        rw [lookup_cons, lookup_cons, ih]
        by_cases h : other = head.1
        · simp [h, hne.symm]
        · simp [h]
      · rename_i hle hge
        have heq : head.1 = name :=
          String.le_antisymm (String.not_lt.1 hle) (String.not_lt.1 hge)
        rw [lookup_cons, lookup_cons, heq]
        split <;> rfl

def empty : NameMap α := ⟨[], .nil⟩

instance : EmptyCollection (NameMap α) := ⟨empty⟩

instance : Inhabited (NameMap α) := ⟨empty⟩

def get? (m : NameMap α) (name : String) : Option α := m.entries.lookup name

def contains (m : NameMap α) (name : String) : Bool := (m.get? name).isSome

/-- An entry of the same name is replaced. -/
def insert (m : NameMap α) (name : String) (value : α) : NameMap α :=
  ⟨insertEntry name value m.entries, sorted_insertEntry name value m.sorted⟩

/-- The last of several entries with one name stays. -/
def ofList (l : List (String × α)) : NameMap α := l.foldl (fun m e => m.insert e.1 e.2) ∅

/-- The entries of `other` win over those of `m`. -/
def union (m other : NameMap α) : NameMap α :=
  other.entries.foldl (fun m e => m.insert e.1 e.2) m

def filter (p : String → α → Bool) (m : NameMap α) : NameMap α :=
  ⟨m.entries.filter fun e => p e.1 e.2, m.sorted.filter _⟩

def erase (m : NameMap α) (name : String) : NameMap α := m.filter fun other _ => other != name

def names (m : NameMap α) : List String := m.entries.map (·.1)

@[simp] theorem get?_empty (name : String) : (∅ : NameMap α).get? name = none := rfl

theorem get?_insert (m : NameMap α) (name other : String) (value : α) :
    (m.insert name value).get? other = if other = name then some value else m.get? other :=
  lookup_insertEntry name other value m.entries

@[simp] theorem get?_insert_self (m : NameMap α) (name : String) (value : α) :
    (m.insert name value).get? name = some value := by
  simp [get?_insert]

theorem lookup_eq_some_of_mem {l : List (String × α)} (hs : l.Pairwise (·.1 < ·.1))
    {e : String × α} (he : e ∈ l) : l.lookup e.1 = some e.2 := by
  induction l with
  | nil => simp at he
  | cons head rest ih =>
    obtain ⟨hhead, hrest⟩ := List.pairwise_cons.1 hs
    rcases List.mem_cons.1 he with rfl | he
    · simp [lookup_cons]
    · have hne : ¬ e.1 = head.1 := fun heq => String.lt_irrefl _ (heq ▸ hhead e he)
      rw [lookup_cons, if_neg hne, ih hrest he]

theorem mem_of_lookup_eq_some {l : List (String × α)} {name : String} {value : α}
    (h : l.lookup name = some value) : (name, value) ∈ l := by
  induction l with
  | nil => simp at h
  | cons head rest ih =>
    rw [lookup_cons] at h
    split at h
    · rename_i heq
      subst heq
      obtain rfl := Option.some.inj h
      exact List.mem_cons_self
    · exact List.mem_cons_of_mem _ (ih h)

theorem get?_eq_some_iff {m : NameMap α} {name : String} {value : α} :
    m.get? name = some value ↔ (name, value) ∈ m.entries :=
  ⟨mem_of_lookup_eq_some, fun h => lookup_eq_some_of_mem m.sorted h⟩

theorem get?_foldl_insert {l : List (String × α)} (hl : l.Pairwise (·.1 < ·.1)) (m : NameMap α)
    (name : String) : (l.foldl (fun m e => m.insert e.1 e.2) m).get? name =
      (l.lookup name).or (m.get? name) := by
  induction l generalizing m with
  | nil => rfl
  | cons e l ih =>
      obtain ⟨hhead, hrest⟩ := List.pairwise_cons.1 hl
      rw [List.foldl_cons, ih hrest, get?_insert, lookup_cons]
      by_cases h : name = e.1
      · have hnone : l.lookup name = none := by
          rw [Option.eq_none_iff_forall_ne_some]
          intro value hvalue
          have hlt := hhead _ (mem_of_lookup_eq_some hvalue)
          rw [h] at hlt
          exact String.lt_irrefl _ hlt
        rw [if_pos h, if_pos h, hnone]
        rfl
      · rw [if_neg h, if_neg h]

theorem get?_union (m other : NameMap α) (name : String) :
    (m.union other).get? name = (other.get? name).or (m.get? name) :=
  get?_foldl_insert other.sorted m name

theorem lookup_filter_ne (name other : String) (l : List (String × α)) :
    (l.filter fun e => e.1 != name).lookup other =
      if other = name then none else l.lookup other := by
  induction l with
  | nil => simp
  | cons head rest ih =>
    rw [List.filter_cons, lookup_cons]
    by_cases h : head.1 = name
    · simp [h, ih]
      split <;> simp_all
    · simp [h, lookup_cons, ih]
      split <;> simp_all

theorem get?_erase (m : NameMap α) (name other : String) :
    (m.erase name).get? other = if other = name then none else m.get? other :=
  lookup_filter_ne name other m.entries

theorem length_erase_lt {m : NameMap α} {name : String} {value : α}
    (h : m.get? name = some value) : (m.erase name).entries.length < m.entries.length :=
  List.length_filter_lt_length_iff_exists.2
    ⟨(name, value), mem_of_lookup_eq_some h, by simp⟩

theorem eq_of_sorted_of_mem_iff {l l' : List (String × α)} (hs : l.Pairwise (·.1 < ·.1))
    (hs' : l'.Pairwise (·.1 < ·.1)) (h : ∀ e, e ∈ l ↔ e ∈ l') : l = l' := by
  induction l generalizing l' with
  | nil => exact (List.eq_nil_iff_forall_not_mem.2 fun e he => by simpa using (h e).2 he).symm
  | cons head rest ih =>
    obtain ⟨hhead, hrest⟩ := List.pairwise_cons.1 hs
    cases l' with
    | nil => simpa using (h head).1 List.mem_cons_self
    | cons head' rest' =>
      obtain ⟨hhead', hrest'⟩ := List.pairwise_cons.1 hs'
      have heq : head = head' := by
        rcases List.mem_cons.1 ((h head).1 List.mem_cons_self) with heq | hmem
        · exact heq
        · rcases List.mem_cons.1 ((h head').2 List.mem_cons_self) with heq | hmem'
          · exact heq.symm
          · exact absurd (String.lt_trans (hhead' _ hmem) (hhead _ hmem')) (String.lt_irrefl _)
      subst heq
      refine congrArg _ (ih hrest hrest' fun e => ⟨fun he => ?_, fun he => ?_⟩)
      · rcases List.mem_cons.1 ((h e).1 (List.mem_cons_of_mem _ he)) with rfl | he'
        · exact absurd (hhead _ he) (String.lt_irrefl _)
        · exact he'
      · rcases List.mem_cons.1 ((h e).2 (List.mem_cons_of_mem _ he)) with rfl | he'
        · exact absurd (hhead' _ he) (String.lt_irrefl _)
        · exact he'

theorem ext_get? {m m' : NameMap α} (h : ∀ name, m.get? name = m'.get? name) : m = m' := by
  obtain ⟨l, hs⟩ := m
  obtain ⟨l', hs'⟩ := m'
  have : l = l' := eq_of_sorted_of_mem_iff hs hs' fun e => by
    rw [← Prod.eta e, ← get?_eq_some_iff (m := ⟨l, hs⟩), h, get?_eq_some_iff]
  subst this
  rfl

end NameMap

/-- A finite set of names, in ascending order. -/
abbrev NameSet := NameMap Unit

namespace NameSet

def add (s : NameSet) (name : String) : NameSet := s.insert name ()

def toList (s : NameSet) : List String := s.names

end NameSet

end ContractCheck
