import ContractCheck.Json.Fields
import Mathlib.Data.List.Forall2
import Mathlib.Data.List.Perm.Basic

/-!
The forms that a value may have in JSON. A record is an array or an object, and in the latter its
members stand in any order among unknown ones (`Json.Record`). A form also counts how often a key of
a record was repeated, which no other part of it forbids: what a reader has to do with a spelling is
to give back what it spells if nothing was repeated and to refuse it otherwise (`Json.Reads`).
-/

namespace ContractCheck.Json

variable {α β γ δ : Type}

/-- What spells something: `form depth repeats b` says that `b` does, that arrays and objects nest
at most `depth` deep in what is to be read of it, and that known keys were repeated `repeats`
times. -/
abbrev Form (β : Type) := Nat → Nat → β → Prop

/-- One spelling only, which holds nothing. -/
inductive Plain (j : Json) : Form Json where
  | intro {depth : Nat} : Plain j depth 0 j

/-- A list that is spelled one by one. -/
inductive Each : List (Form β) → Form (List β) where
  | nil {depth : Nat} : Each [] depth 0 []
  | cons {form : Form β} {forms : List (Form β)} {depth m n : Nat} {b : β} {bs : List β}
      (h : form depth m b) (hs : Each forms depth n bs) :
      Each (form :: forms) depth (m + n) (b :: bs)

inductive Items (forms : List (Form Json)) : Form Json where
  | intro {depth n : Nat} {items : List Json} (h : Each forms depth n items) :
      Items forms (depth + 1) n (.arr items)

inductive Variant (tag : String) (form : Form Json) : Form Json where
  | intro {depth n : Nat} {j : Json} (h : form depth n j) :
      Variant tag form (depth + 1) n (.obj [(some tag, j)])

inductive Required (form : Form Json) : Form (Option Json) where
  | given {depth n : Nat} {j : Json} (h : form depth n j) : Required form depth n (some j)

/-- An option, which may be left out or be null if there is nothing to spell. -/
inductive Nullable : Option (Form Json) → Form (Option Json) where
  | leftOut {depth : Nat} : Nullable none depth 0 none
  | null {depth : Nat} : Nullable none depth 0 (some .null)
  | given {form : Form Json} {depth n : Nat} {j : Json} (h : form depth n j) :
      Nullable (some form) depth n (some j)

/-- A field that may be left out at its default. -/
inductive Defaulted (isDefault : Prop) (form : Form Json) : Form (Option Json) where
  | leftOut {depth : Nat} (h : isDefault) : Defaulted isDefault form depth 0 none
  | given {depth n : Nat} {j : Json} (h : form depth n j) :
      Defaulted isDefault form depth n (some j)

/-- The fields that are given, each with its name. -/
def named : List String → List (Option Json) → List (Option String × Json)
  | name :: names, some j :: given => (some name, j) :: named names given
  | _ :: names, none :: given => named names given
  | _, _ => []

/-- A record: an array of its fields, the last of which may be left off where they may be left out,
or an object of them in any order, among members with unknown keys and members that repeat a key. -/
inductive Record (fields : List (String × Form (Option Json))) : Form Json where
  | inOrder {depth n left : Nat} {items : List Json}
      (h : Each (fields.map (·.2)) depth n (items.map some ++ List.replicate left none)) :
      Record fields (depth + 1) n (.arr items)
  | byName {depth n : Nat} {given : List (Option Json)}
      {members unknown repeated : List (Option String × Json)}
      (h : Each (fields.map (·.2)) depth n given)
      (hunknown : ∀ m ∈ unknown, ∃ key, m.1 = some key ∧ key ∉ fields.map (·.1))
      (hrepeated : ∀ m ∈ repeated, ∃ j, (m.1, j) ∈ named (fields.map (·.1)) given)
      (hmembers : members.Perm (named (fields.map (·.1)) given ++ unknown ++ repeated)) :
      Record fields (depth + 1) (n + repeated.length) (.obj members)

/-- What a reader found, which is `a` if the spelling fits what may be read and no key was repeated,
and nothing if one was. -/
structure Found (fits : Prop) (repeats : Nat) (found : Option α) (a : α) : Prop where
  read : repeats = 0 → fits → found = some a
  refused : repeats ≠ 0 → found = none

/-- The reader, which is told how deep it may go, finds `a` in what the form spells. -/
structure Reads (read : Nat → β → Option α) (form : Form β) (a : α) : Prop where
  found : ∀ {depth n : Nat} {b : β}, form depth n b →
    ∀ fuel, Found (depth ≤ fuel) n (read fuel b) a

namespace Found

variable {p q : Prop} {k m n : Nat} {x : Option α} {y : Option β} {z : Option γ} {a : α} {b : β}
  {c : γ}

theorem some : Found p 0 (some a) a := ⟨fun _ _ => rfl, fun h => absurd rfl h⟩

/-- Nothing has to be found in what does not fit. -/
theorem none (h : ¬ p) : Found p n none a := ⟨fun _ hp => absurd hp h, fun _ => rfl⟩

theorem imp (h : p → q) (hx : Found q n x a) : Found p n x a :=
  ⟨fun hn hp => hx.read hn (h hp), hx.refused⟩

theorem map (hx : Found p n x a) (f : α → β) : Found p n (do return f (← x)) (f a) where
  read hn hp := by
    rw [hx.read hn hp]
    rfl
  refused hn := by
    rw [hx.refused hn]
    rfl

/-- Parts are refused where one of them is. -/
theorem map₂ (hx : Found p m x a) (hy : Found p n y b) (f : α → β → γ) :
    Found p (m + n) (do return f (← x) (← y)) (f a b) where
  read h hp := by
    obtain ⟨hm, hn⟩ := Nat.add_eq_zero_iff.1 h
    rw [hx.read hm hp, hy.read hn hp]
    rfl
  refused h := by
    by_cases hm : m = 0
    · have hn : n ≠ 0 := fun hn => h (by rw [hm, hn])
      rw [hy.refused hn]
      cases x <;> rfl
    · rw [hx.refused hm]
      rfl

theorem map₃ (hx : Found p k x a) (hy : Found p m y b) (hz : Found p n z c)
    (f : α → β → γ → δ) : Found p (k + m + n) (do return f (← x) (← y) (← z)) (f a b c) := by
  have h := (hx.map₂ hy f).map₂ hz fun g c => g c
  cases x with
  | none => exact h
  | some a =>
      cases y with
      | none => exact h
      | some b => exact h

end Found

theorem reads_plain {read : Nat → Json → Option α} {j : Json} {a : α}
    (h : ∀ fuel, read fuel j = some a) : Reads read (Plain j) a := by
  refine ⟨fun hplain fuel => ?_⟩
  cases hplain
  rw [h fuel]
  exact .some

/-- Where nothing may be entered nothing has to be read of what is entered. -/
theorem Reads.of_succ {read : Nat → Json → Option α} {form : Form Json} {a : α}
    (hzero : ∀ j, read 0 j = none) (hpos : ∀ {depth n : Nat} {j : Json}, form depth n j → 0 < depth)
    (hsucc : ∀ {depth n : Nat} {j : Json}, form depth n j →
      ∀ fuel, Found (depth ≤ fuel + 1) n (read (fuel + 1) j) a) : Reads read form a := by
  refine ⟨fun h fuel => ?_⟩
  cases fuel with
  | zero =>
      rw [hzero]
      exact .none (Nat.not_le_of_gt (hpos h))
  | succ fuel => exact hsucc h fuel

theorem Variant.depth_pos {tag : String} {form : Form Json} {depth n : Nat} {j : Json}
    (h : Variant tag form depth n j) : 0 < depth := by
  cases h
  exact Nat.succ_pos _

/-- A variant that holds one spelling only. -/
theorem reads_variant_plain {read : Nat → Json → Option α} {tag : String} {inner : Json} {a : α}
    (hzero : ∀ j, read 0 j = none)
    (hsucc : ∀ fuel, read (fuel + 1) (.obj [(some tag, inner)]) = some a) :
    Reads read (Variant tag (Plain inner)) a := by
  refine .of_succ hzero (·.depth_pos) fun h fuel => ?_
  obtain ⟨⟨⟩⟩ := h
  rw [hsucc]
  exact .some

/-- Lists are read where their items are. -/
theorem Each.found {read : Nat → β → Option α} {forms : List (Form β)} {as : List α}
    (hreads : List.Forall₂ (Reads read) forms as) {depth n : Nat} {bs : List β}
    (h : Each forms depth n bs) (fuel : Nat) : Found (depth ≤ fuel) n (bs.mapM (read fuel)) as := by
  induction hreads generalizing n bs with
  | nil =>
      cases h
      exact .some
  | cons hread _ ih =>
      obtain _ | ⟨hb, hbs⟩ := h
      rw [List.mapM_cons]
      exact (hread.found hb fuel).map₂ (ih hbs) List.cons

/-- A variant is read as what it holds, one level further in. -/
theorem Variant.found {tag : String} {form : Form Json} {depth n : Nat} {j : Json}
    (h : Variant tag form depth n j) {fits : Prop} {read : String × Json → Option α} {a : α}
    (hread : ∀ k inner, depth = k + 1 → form k n inner → Found fits n (read (tag, inner)) a) :
    Found fits n (do read (← j.variant?)) a := by
  obtain ⟨h⟩ := h
  exact hread _ _ rfl h

theorem Each.length_eq {forms : List (Form β)} {depth n : Nat} {bs : List β}
    (h : Each forms depth n bs) : forms.length = bs.length := by
  induction h with
  | nil => rfl
  | cons _ _ ih => rw [List.length_cons, List.length_cons, ih]

/-- Where one field is an array, something is entered. -/
theorem Each.depth_pos {forms : List (Form (Option Json))} {depth n : Nat}
    {given : List (Option Json)} (h : Each forms depth n given) (items : List (Form Json))
    (hitems : Required (Items items) ∈ forms) : 0 < depth := by
  induction h with
  | nil => cases hitems
  | cons h _ ih =>
      rcases List.mem_cons.1 hitems with rfl | hitems
      · obtain ⟨⟨_⟩⟩ := h
        exact Nat.succ_pos _
      · exact ih hitems

theorem Each.pair {f g : Form β} {depth k m : Nat} {b c : β} (hf : f depth k b)
    (hg : g depth m c) : Each [f, g] depth (k + m) [b, c] := .cons hf (.cons hg .nil)

theorem Each.triple {f g h : Form β} {depth k l m : Nat} {b c d : β} (hf : f depth k b)
    (hg : g depth l c) (hh : h depth m d) : Each [f, g, h] depth (k + (l + m)) [b, c, d] :=
  .cons hf (.pair hg hh)

theorem Each.exists_pair {f g : Form β} {depth n : Nat} {bs : List β}
    (h : Each [f, g] depth n bs) : ∃ b c k m, bs = [b, c] ∧ n = k + m ∧ f depth k b ∧
      g depth m c := by
  obtain _ | ⟨hf, _ | ⟨hg, ⟨⟩⟩⟩ := h
  exact ⟨_, _, _, _, rfl, rfl, hf, hg⟩

theorem Each.exists_triple {f g h : Form β} {depth n : Nat} {bs : List β}
    (heach : Each [f, g, h] depth n bs) : ∃ b c d k l m, bs = [b, c, d] ∧ n = k + l + m ∧
      f depth k b ∧ g depth l c ∧ h depth m d := by
  obtain _ | ⟨hf, _ | ⟨hg, _ | ⟨hh, ⟨⟩⟩⟩⟩ := heach
  exact ⟨_, _, _, _, _, _, rfl, (Nat.add_assoc _ _ _).symm, hf, hg, hh⟩

theorem reads_nullable_none {read : Nat → Json → Option α} :
    Reads (fun fuel => nullable? (read fuel)) (Nullable none) none := by
  refine ⟨fun h fuel => ?_⟩
  cases h <;> exact .some

/-- An option may be null if null spells nothing else. -/
theorem Reads.nullable {read : Nat → Json → Option α} {form : Form Json} {a : α}
    (h : Reads read form a) (hnull : ∀ depth n, ¬ form depth n .null) :
    Reads (fun fuel => nullable? (read fuel)) (Nullable (some form)) (some a) := by
  refine ⟨fun {_ n _} hgiven fuel => ?_⟩
  obtain _ | _ | @⟨_, _, _, j, hform⟩ := hgiven
  have hfield : nullable? (read fuel) (some j) = (read fuel j).map some := by
    unfold nullable?
    split
    · rename_i heq
      cases heq
    · rename_i heq
      cases heq
      exact absurd hform (hnull _ _)
    · rename_i heq
      cases heq
      rfl
  show Found _ n (nullable? (read fuel) (some j)) _
  rw [hfield, Option.map_eq_bind]
  exact (h.found hform fuel).map some

theorem Reads.defaulted {read : Nat → Json → Option α} {form : Form Json} {a default : α}
    (h : Reads read form a) :
    Reads (fun fuel => optional? default (read fuel)) (Defaulted (a = default) form) a := by
  refine ⟨fun hgiven fuel => ?_⟩
  obtain rfl | hform := hgiven
  · exact .some
  · exact h.found hform fuel

theorem mem_names_of_mem_named {names : List String} {given : List (Option Json)}
    {m : Option String × Json} (h : m ∈ named names given) : ∃ name ∈ names, m.1 = some name := by
  induction names, given using named.induct with
  | case1 name names j given ih =>
      rw [named] at h
      rcases List.mem_cons.1 h with rfl | h
      · exact ⟨name, List.mem_cons_self, rfl⟩
      · obtain ⟨other, hmem, hother⟩ := ih h
        exact ⟨other, List.mem_cons_of_mem _ hmem, hother⟩
  | case2 name names given ih =>
      rw [named] at h
      obtain ⟨other, hmem, hother⟩ := ih h
      exact ⟨other, List.mem_cons_of_mem _ hmem, hother⟩
  | case3 names given _ _ =>
      rw [named] at h
      · cases h
      · assumption
      · assumption

/-- The members of a name. -/
def membersOf (name : String) (members : List (Option String × Json)) :
    List (Option String × Json) := members.filter fun m => m.1 == some name

theorem membersOf_eq_nil {name : String} {members : List (Option String × Json)}
    (h : ∀ m ∈ members, m.1 ≠ some name) : membersOf name members = [] :=
  List.filter_eq_nil_iff.2 fun m hm => by simpa using h m hm

theorem membersOf_cons_self (name : String) (j : Json) (members : List (Option String × Json)) :
    membersOf name ((some name, j) :: members) = (some name, j) :: membersOf name members :=
  List.filter_cons_of_pos (beq_self_eq_true _)

theorem membersOf_cons_of_ne {name : String} {m : Option String × Json} (h : m.1 ≠ some name)
    (members : List (Option String × Json)) :
    membersOf name (m :: members) = membersOf name members :=
  List.filter_cons_of_neg (by simpa using h)

/-- Where no two fields share a name, one member has the name of each field that is given. -/
theorem membersOf_named {names : List String} {given : List (Option Json)} (hnodup : names.Nodup) :
    ∀ p ∈ names.zip given,
      membersOf p.1 (named names given) = (p.2.map fun j => (some p.1, j)).toList := by
  induction names generalizing given with
  | nil => exact fun _ h => nomatch h
  | cons name names ih =>
      obtain ⟨hname, hnodup⟩ := List.nodup_cons.1 hnodup
      -- no later field has this name, so no later member does
      have hself : ∀ given, membersOf name (named names given) = [] := fun given =>
        membersOf_eq_nil fun m hm heq => by
          obtain ⟨other, hother, hm⟩ := mem_names_of_mem_named hm
          rw [heq] at hm
          cases hm
          exact hname hother
      cases given with
      | nil => exact fun _ h => nomatch h
      | cons j? given =>
          rw [List.zip_cons_cons, List.forall_mem_cons]
          cases j? with
          | none => exact ⟨hself given, ih hnodup⟩
          | some j =>
              refine ⟨?_, fun p hp => ?_⟩
              · rw [named, membersOf_cons_self, hself]
                rfl
              · have hne : some name ≠ some p.1 := by
                  intro heq
                  cases heq
                  exact hname (List.of_mem_zip hp).1
                rw [named, membersOf_cons_of_ne hne]
                exact ih hnodup p hp

theorem member?_eq (members : List (Option String × Json)) (name : String) :
    member? members name = match membersOf name members with
      | [] => some none
      | [m] => some (some m.2)
      | _ :: _ :: _ => none := rfl

theorem member?_of_membersOf {members : List (Option String × Json)} {name : String}
    {j? : Option Json} (h : membersOf name members = (j?.map fun j => (some name, j)).toList) :
    member? members name = some j? := by
  rw [member?_eq, h]
  cases j? <;> rfl

/-- A repeated member is no member. -/
theorem member?_eq_none {members : List (Option String × Json)} {name : String}
    (h : 2 ≤ (membersOf name members).length) : member? members name = none := by
  rw [member?_eq]
  split
  · rename_i heq
    rw [heq] at h
    cases h
  · rename_i heq
    rw [heq] at h
    exact absurd h (by simp)
  · rfl

theorem mapM_eq_some_of_zip {f : α → Option β} {as : List α} {bs : List β}
    (hlength : as.length = bs.length) (h : ∀ p ∈ as.zip bs, f p.1 = some p.2) :
    as.mapM f = some bs := by
  induction as generalizing bs with
  | nil =>
      obtain rfl := List.length_eq_zero_iff.1 hlength.symm
      rfl
  | cons a as ih =>
      cases bs with
      | nil => cases hlength
      | cons b bs =>
          rw [List.zip_cons_cons, List.forall_mem_cons] at h
          rw [List.mapM_cons, h.1, ih (Nat.succ.inj hlength) h.2]
          rfl

theorem mapM_eq_none_of_mem {f : α → Option β} {as : List α} {a : α} (ha : a ∈ as)
    (h : f a = none) : as.mapM f = none := by
  induction as with
  | nil => cases ha
  | cons head as ih =>
      rw [List.mapM_cons]
      rcases List.mem_cons.1 ha with rfl | ha
      · rw [h]
        rfl
      · rw [ih ha]
        cases f head <;> rfl

section

variable {fields : List (String × Form (Option Json))} {depth n : Nat} {j : Json}

theorem Record.exists_each (h : Record fields depth n j) : ∃ k m given, depth = k + 1 ∧
    Each (fields.map (·.2)) k m given := by
  cases h with
  | inOrder h => exact ⟨_, _, _, rfl, h⟩
  | byName h _ _ _ => exact ⟨_, _, _, rfl, h⟩

/-- All keys of a record are texts, and unknown members have none of its names. -/
theorem membersOf_of_perm {names : List String} {given : List (Option Json)}
    {members unknown repeated : List (Option String × Json)}
    (hunknown : ∀ m ∈ unknown, ∃ key, m.1 = some key ∧ key ∉ names)
    (hrepeated : ∀ m ∈ repeated, ∃ j, (m.1, j) ∈ named names given)
    (hmembers : members.Perm (named names given ++ unknown ++ repeated)) :
    (∀ m ∈ members, m.1.isSome = true) ∧ ∀ name ∈ names, (membersOf name members).Perm
      (membersOf name (named names given) ++ membersOf name repeated) := by
  constructor
  · intro m hm
    rw [hmembers.mem_iff, List.mem_append, List.mem_append] at hm
    rcases hm with (hm | hm) | hm
    · obtain ⟨name, -, hname⟩ := mem_names_of_mem_named hm
      rw [hname, Option.isSome_some]
    · obtain ⟨key, hkey, -⟩ := hunknown m hm
      rw [hkey, Option.isSome_some]
    · obtain ⟨j, hj⟩ := hrepeated m hm
      obtain ⟨name, -, hname⟩ := mem_names_of_mem_named hj
      rw [hname, Option.isSome_some]
  · intro name hname
    have hnone : membersOf name unknown = [] := membersOf_eq_nil fun m hm heq => by
      obtain ⟨key, hkey, hmem⟩ := hunknown m hm
      rw [heq] at hkey
      cases hkey
      exact hmem hname
    have hperm := hmembers.filter fun m => m.1 == some name
    rw [List.filter_append, List.filter_append] at hperm
    change (membersOf name members).Perm
      (membersOf name _ ++ membersOf name unknown ++ membersOf name repeated) at hperm
    rwa [hnone, List.append_nil] at hperm

theorem Record.depth_pos (h : Record fields depth n j) : 0 < depth := by
  obtain ⟨k, _, _, rfl, -⟩ := h.exists_each
  exact Nat.succ_pos k

theorem Record.two_le_depth (h : Record fields depth n j) (items : List (Form Json))
    (hitems : Required (Items items) ∈ fields.map (·.2)) : 2 ≤ depth := by
  obtain ⟨k, _, _, rfl, heach⟩ := h.exists_each
  exact Nat.succ_le_succ (heach.depth_pos items hitems)

/-- The fields of a record are found in either form, unless a key is repeated. -/
theorem Record.fields? (h : Record fields depth n j) (hnodup : (fields.map (·.1)).Nodup) :
    (n ≠ 0 ∧ j.fields? (fields.map (·.1)) = none) ∨
      ∃ k given, depth = k + 1 ∧ Each (fields.map (·.2)) k n given ∧
        j.fields? (fields.map (·.1)) = some given := by
  cases h with
  | @inOrder k _ left items h =>
      refine .inr ⟨k, _, rfl, h, ?_⟩
      have hlength := h.length_eq
      simp only [List.length_map, List.length_append, List.length_replicate] at hlength
      rw [Json.fields?, List.length_map, if_pos (by omega)]
      congr 3
      omega
  | @byName k n given members unknown repeated h hunknown hrepeated hmembers =>
      have hlength := h.length_eq
      rw [List.length_map] at hlength
      obtain ⟨hkeys, hperm⟩ := membersOf_of_perm hunknown hrepeated hmembers
      rw [Json.fields?, if_pos (List.all_eq_true.2 hkeys)]
      cases repeated with
      | nil =>
          -- a field has one member or none, in whatever order they stand
          refine .inr ⟨k, given, rfl, h, mapM_eq_some_of_zip (by rw [List.length_map, hlength])
            fun p hp => member?_of_membersOf ?_⟩
          have hone := hperm p.1 (List.of_mem_zip hp).1
          rw [membersOf_named hnodup p hp] at hone
          cases hj : p.2 with
          | none =>
              rw [hj] at hone
              exact hone.eq_nil
          | some j =>
              rw [hj] at hone
              exact List.perm_singleton.1 hone
      | cons m repeated =>
          refine .inl ⟨Nat.succ_ne_zero _, ?_⟩
          obtain ⟨j, hj⟩ := hrepeated m List.mem_cons_self
          obtain ⟨name, hname, hkey⟩ := mem_names_of_mem_named hj
          have hkey : (m.1 == some name) = true := beq_iff_eq.2 hkey
          -- the member whose key is repeated, and one that repeats it
          have hfirst : 0 < (membersOf name (named (fields.map (·.1)) given)).length :=
            List.length_pos_of_mem (List.mem_filter.2 ⟨hj, hkey⟩)
          have hsecond : 0 < (membersOf name (m :: repeated)).length :=
            List.length_pos_of_mem (List.mem_filter.2 ⟨List.mem_cons_self, hkey⟩)
          refine mapM_eq_none_of_mem hname (member?_eq_none ?_)
          rw [(hperm name hname).length_eq, List.length_append]
          omega

/-- A record is read as its fields are, one level further in. -/
theorem Record.found (h : Record fields depth n j) (names : List String)
    (hnames : fields.map (·.1) = names) (hnodup : names.Nodup) {fits : Prop}
    {read : List (Option Json) → Option α} {a : α}
    (hread : ∀ k given, depth = k + 1 → Each (fields.map (·.2)) k n given →
      Found fits n (read given) a) : Found fits n (do read (← j.fields? names)) a := by
  subst hnames
  rcases h.fields? hnodup with ⟨hn, hfields⟩ | ⟨k, given, hdepth, heach, hfields⟩
  · rw [hfields]
    exact ⟨fun h => absurd h hn, fun _ => rfl⟩
  · rw [hfields]
    exact hread k given hdepth heach

end

end ContractCheck.Json
