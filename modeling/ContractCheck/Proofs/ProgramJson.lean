import ContractCheck.Program.Reader
import ContractCheck.Program.Writer
import ContractCheck.Proofs.JsonText

/-!
Programs keep through JSON. Reader and writer of each kind of value fit together to every depth
(`Json.Fits`): what is written and is no deeper than the reader may go is read back as it was, and
what the reader accepts is written no deeper than the reader went. So a program that nests at most
as deep as may be read is what its written form stands for, and whatever is read can be written and
read again (`Program.round_trip`).
-/

namespace ContractCheck

namespace Json

variable {α : Type} {d : Nat}

/-- The reader, which may go `d` deep, and the writer fit together. -/
structure Fits (d : Nat) (read : Json → Option α) (write : α → Json) : Prop where
  kept : ∀ a, (write a).depth ≤ d → (write a).IsExact ∧ read (write a) = some a
  depth_le : ∀ {j a}, read j = some a → (write a).depth ≤ d

/-- The reader of a field, which may be left out, and the writer fit together. -/
structure FitsField (d : Nat) (read : Option Json → Option α) (write : α → Json) : Prop where
  kept : ∀ a, (write a).depth ≤ d → (write a).IsExact ∧ read (some (write a)) = some a
  depth_le : ∀ {j a}, read j = some a → (write a).depth ≤ d

theorem fits_text : Fits d text? ofString := ⟨fun _ _ => ⟨rfl, rfl⟩, fun _ => Nat.zero_le _⟩

theorem intIn?_eq_some {low high n : Int} (hlow : low ≤ n) (hhigh : n ≤ high) :
    intIn? low high (.int n) = some n := by
  rw [intIn?, if_pos ⟨hlow, hhigh⟩]

theorem word32?_ofNat (n : UInt32) : word32? (ofNat n.toNat) = some n := by
  have hn := n.toNat_lt
  rw [word32?, ofNat, intIn?_eq_some (by omega) (by omega)]
  simp

theorem word64?_ofNat (n : UInt64) : word64? (ofNat n.toNat) = some n := by
  have hn := n.toNat_lt
  rw [word64?, ofNat, intIn?_eq_some (by omega) (by omega)]
  simp

theorem int64?_int (n : Int64) : int64? (.int n.toInt) = some n := by
  have hlow := n.le_toInt
  have hhigh := n.toInt_lt
  rw [int64?, intIn?_eq_some (by omega) (by omega)]
  simp

/-- A field may be null if null stands for nothing else. -/
theorem Fits.nullable {read : Json → Option α} {write : α → Json} (h : Fits d read write)
    (hnull : ∀ a, write a ≠ .null) : FitsField d (nullable? read) (ofOption write) where
  kept a ha := by
    cases a with
    | none => exact ⟨trivial, rfl⟩
    | some a =>
        obtain ⟨hexact, hread⟩ := h.kept a ha
        have hfield : nullable? read (some (write a)) = (read (write a)).map some := by
          unfold nullable?
          split
          · rename_i heq
            cases heq
          · rename_i heq
            exact absurd (Option.some.inj heq) (hnull a)
          · rename_i heq
            cases heq
            rfl
        rw [ofOption, hfield, hread]
        exact ⟨hexact, rfl⟩
  depth_le {j a} ha := by
    unfold nullable? at ha
    split at ha
    · cases ha
      exact Nat.zero_le _
    · cases ha
      exact Nat.zero_le _
    · obtain ⟨b, hb, rfl⟩ := Option.map_eq_some_iff.1 ha
      exact h.depth_le hb

/-- What was read item by item was read of some item. -/
theorem exists_of_mapM_eq_some {β : Type} {read : α → Option β} {l : List α} {bs : List β}
    (h : l.mapM read = some bs) {b : β} (hb : b ∈ bs) : ∃ a ∈ l, read a = some b := by
  induction l generalizing bs with
  | nil =>
      cases h
      cases hb
  | cons a l ih =>
      rw [List.mapM_cons] at h
      obtain ⟨first, hfirst, h⟩ := Option.bind_eq_some_iff.1 h
      obtain ⟨rest, hrest, h⟩ := Option.bind_eq_some_iff.1 h
      cases h
      rcases List.mem_cons.1 hb with rfl | hb
      · exact ⟨a, List.mem_cons_self, hfirst⟩
      · obtain ⟨a', ha', hread⟩ := ih hrest hb
        exact ⟨a', List.mem_cons_of_mem _ ha', hread⟩

section

variable {read : Json → Option α} {write : α → Json} (h : Fits d read write)
include h

theorem Fits.kept_items (as : List α) (hdepth : (arr (as.map write)).depth ≤ d + 1) :
    (arr (as.map write)).IsExact ∧ (as.map write).mapM read = some as := by
  rw [depth] at hdepth
  rw [IsExact]
  induction as with
  | nil => exact ⟨trivial, rfl⟩
  | cons a as ih =>
      rw [List.map_cons, depthItems] at hdepth
      obtain ⟨hexact, hread⟩ := ih (by omega)
      obtain ⟨ha, hreadA⟩ := h.kept a (by omega)
      refine ⟨⟨ha, hexact⟩, ?_⟩
      rw [List.map_cons, List.mapM_cons, hreadA, hread]
      rfl

theorem Fits.depth_items_le {js : List Json} {as : List α} (has : js.mapM read = some as) :
    (arr (as.map write)).depth ≤ d + 1 := by
  have hdepth : ∀ a ∈ as, (write a).depth ≤ d := by
    intro a ha
    obtain ⟨j, -, hj⟩ := exists_of_mapM_eq_some has ha
    exact h.depth_le hj
  rw [depth]
  refine Nat.succ_le_succ ?_
  clear has
  induction as with
  | nil => exact Nat.zero_le _
  | cons a as ih =>
      obtain ⟨ha, has⟩ := List.forall_mem_cons.1 hdepth
      rw [List.map_cons, depthItems]
      exact Nat.max_le.2 ⟨ha, ih has⟩

end

@[simp] theorem isExact_ofString (text : String) : (ofString text).IsExact := rfl

@[simp] theorem isExact_ofNat (n : Nat) : (ofNat n).IsExact := trivial

@[simp] theorem isExact_int (n : Int) : (int n).IsExact := trivial

@[simp] theorem isExact_bool (b : Bool) : (bool b).IsExact := trivial

@[simp] theorem isExact_record_nil : (record []).IsExact := trivial

@[simp] theorem isExact_record_cons (key : String) (j : Json) (members : List (String × Json)) :
    (record ((key, j) :: members)).IsExact ↔ j.IsExact ∧ (record members).IsExact := by
  simp only [record, List.map_cons, IsExact, HasExactMembers, Option.isSome_some, true_and]

@[simp] theorem depth_ofString_le (text : String) : (ofString text).depth ≤ d := Nat.zero_le _

@[simp] theorem depth_ofNat_le (n : Nat) : (ofNat n).depth ≤ d := Nat.zero_le _

@[simp] theorem depth_int_le (n : Int) : (int n).depth ≤ d := Nat.zero_le _

@[simp] theorem depth_bool_le (b : Bool) : (bool b).depth ≤ d := Nat.zero_le _

@[simp] theorem depth_record_nil_le : (record []).depth ≤ d + 1 := Nat.le_add_left 1 d

/-- A record nests one level deeper than what it holds. -/
@[simp] theorem depth_record_cons_le (key : String) (j : Json) (members : List (String × Json)) :
    (record ((key, j) :: members)).depth ≤ d + 1 ↔
      j.depth ≤ d ∧ (record members).depth ≤ d + 1 := by
  simp only [record, List.map_cons, depth, depthMembers]
  omega

theorem record_ne_null (members : List (String × Json)) : record members ≠ .null := nofun

theorem exists_of_depth_record_le {members : List (String × Json)}
    (h : (record members).depth ≤ d) : ∃ k, d = k + 1 := by
  rw [record, depth] at h
  exact ⟨d - 1, by omega⟩

theorem exists_of_depth_arr_le {items : List Json} (h : (arr items).depth ≤ d) :
    ∃ k, d = k + 1 := by
  rw [depth] at h
  exact ⟨d - 1, by omega⟩

/-- Nothing is read where nothing may be entered. -/
theorem fits_zero {read : Json → Option α} {write : α → Json} (hread : ∀ j, read j = none)
    (hwrite : ∀ a, ∃ members, write a = record members) : Fits 0 read write := by
  refine ⟨fun a ha => ?_, fun {j a} ha => ?_⟩
  · obtain ⟨members, hmembers⟩ := hwrite a
    rw [hmembers] at ha
    obtain ⟨k, hk⟩ := exists_of_depth_record_le ha
    cases hk
  · rw [hread] at ha
    cases ha

end Json

open Json (record ofString ofOption variant? fields? member? text? items? Fits FitsField
  exists_of_depth_record_le exists_of_depth_arr_le depth_record_cons_le)

theorem Ty.toJsonAll_eq_map (ts : List Ty) : Ty.toJsonAll ts = ts.map Ty.toJson := by
  induction ts with
  | nil => rfl
  | cons t ts ih => rw [Ty.toJsonAll, ih, List.map_cons]

theorem RefinedTy.toJsonAll_eq_map (ts : List RefinedTy) :
    RefinedTy.toJsonAll ts = ts.map RefinedTy.toJson := by
  induction ts with
  | nil => rfl
  | cons t ts ih => rw [RefinedTy.toJsonAll, ih, List.map_cons]

theorem Expr.toJsonAll_eq_map (es : List Expr) : Expr.toJsonAll es = es.map Expr.toJson := by
  induction es with
  | nil => rfl
  | cons e es ih => rw [Expr.toJsonAll, ih, List.map_cons]

def Clause.toJson : Clause → Json
  | .holds pred => record [("holds", pred.toJson)]
  | .equals value => record [("equals", value.toJson)]

theorem Refinement.toJson_eq (r : Refinement) : r.toJson =
    record [("binder", ofString r.binder), ("clause", ofOption Clause.toJson r.clause?)] := by
  cases r <;> rfl

theorem RefinedTy.toJson_eq (t : RefinedTy) : t.toJson =
    record [("refinement", ofOption Refinement.toJson t.refinement?), ("ty", t.ty.toJson)] := by
  cases t <;> rfl

theorem Shape.toJson_cast (e : Expr) (target : RefinedTy) : (Shape.cast e target).toJson =
    record [("cast", record [("contract", ofOption Refinement.toJson target.refinement?),
      ("expr", e.toJson), ("ty", target.ty.toJson)])] := by
  cases target <;> rfl

theorem fits_span : ∀ {d : Nat}, Fits d (Span.read? d) Span.toJson
  | 0 => Json.fits_zero (fun _ => rfl) fun _ => ⟨_, rfl⟩
  | d + 1 => by
      refine ⟨fun s _ => ⟨by simp [Span.toJson], ?_⟩, fun {j s} _ => by simp [Span.toJson]⟩
      simp [Span.toJson, Span.read?, record, fields?, member?, Json.word64?_ofNat]

/-- Readers and writers of what contains each other fit together. -/
structure FitsAll (d : Nat) : Prop where
  ty : Fits d (Ty.read? d) Ty.toJson
  refined : Fits d (RefinedTy.read? d) RefinedTy.toJson
  refinement : Fits d (Refinement.read? d) Refinement.toJson
  clause : Fits d (Clause.read? d) Clause.toJson
  expr : Fits d (Expr.read? d) Expr.toJson
  shape : Fits d (Shape.read? d) Shape.toJson

theorem FitsAll.contract {d : Nat} (h : FitsAll d) :
    FitsField d (Json.nullable? (Refinement.read? d)) (ofOption Refinement.toJson) :=
  h.refinement.nullable fun r => by
    rw [Refinement.toJson_eq]
    exact Json.record_ne_null _

theorem FitsAll.clauseField {d : Nat} (h : FitsAll d) :
    FitsField d (Json.nullable? (Clause.read? d)) (ofOption Clause.toJson) :=
  h.clause.nullable fun clause => by
    cases clause <;> exact Json.record_ne_null _

theorem fits_spanField {d : Nat} :
    FitsField d (Json.nullable? (Span.read? d)) (ofOption Span.toJson) :=
  fits_span.nullable fun _ => Json.record_ne_null _

section

variable {d : Nat}

theorem fits_ty (ih : ∀ k ≤ d, FitsAll k) : Fits (d + 1) (Ty.read? (d + 1)) Ty.toJson where
  kept t ht := by
    cases t with
    | con name =>
        refine ⟨by simp [Ty.toJson], ?_⟩
        simp [Ty.toJson, Ty.read?, record, variant?, ofString, text?]
    | var id =>
        refine ⟨by simp [Ty.toJson], ?_⟩
        simp [Ty.toJson, Ty.read?, record, variant?, Json.word32?_ofNat]
    | app name args =>
        rw [Ty.toJson, Ty.toJsonAll_eq_map] at ht ⊢
        have hinner := ((depth_record_cons_le _ _ _).1 ht).1
        obtain ⟨d, rfl⟩ := exists_of_depth_record_le hinner
        simp only [depth_record_cons_le] at hinner
        obtain ⟨d, rfl⟩ := exists_of_depth_arr_le hinner.1
        obtain ⟨hexact, hargs⟩ := (ih d (by omega)).ty.kept_items args hinner.1
        refine ⟨by simp [hexact], ?_⟩
        simp [Ty.read?, record, variant?, fields?, member?, ofString, text?, items?, hargs]
    | arrow params ret =>
        rw [Ty.toJson, RefinedTy.toJsonAll_eq_map] at ht ⊢
        have hinner := ((depth_record_cons_le _ _ _).1 ht).1
        obtain ⟨d, rfl⟩ := exists_of_depth_record_le hinner
        simp only [depth_record_cons_le] at hinner
        obtain ⟨d, rfl⟩ := exists_of_depth_arr_le hinner.1
        obtain ⟨hexact, hparams⟩ := (ih d (by omega)).refined.kept_items params hinner.1
        obtain ⟨hexact', hret⟩ := (ih (d + 1) (by omega)).refined.kept ret hinner.2.1
        refine ⟨by simp [hexact, hexact'], ?_⟩
        simp [Ty.read?, record, variant?, fields?, member?, items?, hparams, hret]
  depth_le {j t} h := by
    rw [Ty.read?] at h
    obtain ⟨⟨tag, inner⟩, -, h⟩ := Option.bind_eq_some_iff.1 h
    split at h
    · obtain ⟨name, -, h⟩ := Option.bind_eq_some_iff.1 h
      cases h
      simp [Ty.toJson]
    · obtain ⟨id, -, h⟩ := Option.bind_eq_some_iff.1 h
      cases h
      simp [Ty.toJson]
    · split at h
      · obtain ⟨fields, -, h⟩ := Option.bind_eq_some_iff.1 h
        split at h
        · obtain ⟨name, -, h⟩ := Option.bind_eq_some_iff.1 h
          obtain ⟨items, -, h⟩ := Option.bind_eq_some_iff.1 h
          obtain ⟨args, hargs, h⟩ := Option.bind_eq_some_iff.1 h
          cases h
          have hdepth := (ih _ (by omega)).ty.depth_items_le hargs
          simp [Ty.toJson, Ty.toJsonAll_eq_map, hdepth]
        · cases h
      · cases h
    · split at h
      · obtain ⟨fields, -, h⟩ := Option.bind_eq_some_iff.1 h
        split at h
        · obtain ⟨items, -, h⟩ := Option.bind_eq_some_iff.1 h
          obtain ⟨params, hparams, h⟩ := Option.bind_eq_some_iff.1 h
          obtain ⟨ret, hret, h⟩ := Option.bind_eq_some_iff.1 h
          cases h
          have hdepth := (ih _ (by omega)).refined.depth_items_le hparams
          have hdepth' := (ih _ (by omega)).refined.depth_le hret
          simp [Ty.toJson, RefinedTy.toJsonAll_eq_map, hdepth, hdepth']
        · cases h
      · cases h
    · cases h

theorem fits_refined (ih : ∀ k ≤ d, FitsAll k) :
    Fits (d + 1) (RefinedTy.read? (d + 1)) RefinedTy.toJson where
  kept t ht := by
    rw [RefinedTy.toJson_eq] at ht ⊢
    simp only [depth_record_cons_le] at ht
    obtain ⟨hexact, hrefinement⟩ := (ih d (Nat.le_refl d)).contract.kept _ ht.1
    obtain ⟨hexact', hty⟩ := (ih d (Nat.le_refl d)).ty.kept _ ht.2.1
    refine ⟨by simp [hexact, hexact'], ?_⟩
    simp [RefinedTy.read?, record, fields?, member?, hrefinement, hty]
  depth_le {j t} h := by
    rw [RefinedTy.read?] at h
    obtain ⟨fields, -, h⟩ := Option.bind_eq_some_iff.1 h
    split at h
    · obtain ⟨ty, hty, h⟩ := Option.bind_eq_some_iff.1 h
      obtain ⟨refinement, hrefinement, h⟩ := Option.bind_eq_some_iff.1 h
      cases h
      have hdepth := (ih d (Nat.le_refl d)).ty.depth_le hty
      have hdepth' := (ih d (Nat.le_refl d)).contract.depth_le hrefinement
      simp [RefinedTy.toJson_eq, hdepth, hdepth']
    · cases h

theorem fits_refinement (ih : ∀ k ≤ d, FitsAll k) :
    Fits (d + 1) (Refinement.read? (d + 1)) Refinement.toJson where
  kept r hr := by
    rw [Refinement.toJson_eq] at hr ⊢
    simp only [depth_record_cons_le] at hr
    obtain ⟨hexact, hclause⟩ := (ih d (Nat.le_refl d)).clauseField.kept _ hr.2.1
    refine ⟨by simp [hexact], ?_⟩
    simp [Refinement.read?, record, fields?, member?, ofString, text?, hclause]
  depth_le {j r} h := by
    rw [Refinement.read?] at h
    obtain ⟨fields, -, h⟩ := Option.bind_eq_some_iff.1 h
    split at h
    · obtain ⟨binder, -, h⟩ := Option.bind_eq_some_iff.1 h
      obtain ⟨clause, hclause, h⟩ := Option.bind_eq_some_iff.1 h
      cases h
      have hdepth := (ih d (Nat.le_refl d)).clauseField.depth_le hclause
      simp [Refinement.toJson_eq, hdepth]
    · cases h

theorem fits_clause (ih : ∀ k ≤ d, FitsAll k) :
    Fits (d + 1) (Clause.read? (d + 1)) Clause.toJson where
  kept clause hclause := by
    have hexpr := (ih d (Nat.le_refl d)).expr
    cases clause with
    | holds pred =>
        rw [Clause.toJson, depth_record_cons_le] at hclause
        obtain ⟨hexact, hread⟩ := hexpr.kept pred hclause.1
        refine ⟨by simp [Clause.toJson, hexact], ?_⟩
        simp [Clause.toJson, Clause.read?, record, variant?, hread]
    | equals value =>
        rw [Clause.toJson, depth_record_cons_le] at hclause
        obtain ⟨hexact, hread⟩ := hexpr.kept value hclause.1
        refine ⟨by simp [Clause.toJson, hexact], ?_⟩
        simp [Clause.toJson, Clause.read?, record, variant?, hread]
  depth_le {j clause} h := by
    have hexpr := (ih d (Nat.le_refl d)).expr
    rw [Clause.read?] at h
    obtain ⟨⟨tag, inner⟩, -, h⟩ := Option.bind_eq_some_iff.1 h
    split at h
    · obtain ⟨pred, hpred, h⟩ := Option.bind_eq_some_iff.1 h
      cases h
      simp [Clause.toJson, hexpr.depth_le hpred]
    · obtain ⟨value, hvalue, h⟩ := Option.bind_eq_some_iff.1 h
      cases h
      simp [Clause.toJson, hexpr.depth_le hvalue]
    · cases h

theorem fits_expr (ih : ∀ k ≤ d, FitsAll k) :
    Fits (d + 1) (Expr.read? (d + 1)) Expr.toJson where
  kept e he := by
    obtain ⟨ty, shape, span⟩ := e
    rw [Expr.toJson] at he ⊢
    simp only [depth_record_cons_le] at he
    obtain ⟨hexact, hshape⟩ := (ih d (Nat.le_refl d)).shape.kept _ he.1
    obtain ⟨hexact', hspan⟩ := fits_spanField.kept _ he.2.1
    obtain ⟨hexact'', hty⟩ := (ih d (Nat.le_refl d)).ty.kept _ he.2.2.1
    refine ⟨by simp [hexact, hexact', hexact''], ?_⟩
    simp [Expr.read?, record, fields?, member?, hshape, hspan, hty]
  depth_le {j e} h := by
    rw [Expr.read?] at h
    obtain ⟨fields, -, h⟩ := Option.bind_eq_some_iff.1 h
    split at h
    · obtain ⟨ty, hty, h⟩ := Option.bind_eq_some_iff.1 h
      obtain ⟨shape, hshape, h⟩ := Option.bind_eq_some_iff.1 h
      obtain ⟨span, hspan, h⟩ := Option.bind_eq_some_iff.1 h
      cases h
      have hdepth := (ih d (Nat.le_refl d)).ty.depth_le hty
      have hdepth' := (ih d (Nat.le_refl d)).shape.depth_le hshape
      have hdepth'' := fits_spanField.depth_le hspan
      simp [Expr.toJson, hdepth, hdepth', hdepth'']
    · cases h

/-- Each shape is read back under its own tag. -/
theorem kept_shape (ih : ∀ k ≤ d, FitsAll k) (shape : Shape)
    (hshape : shape.toJson.depth ≤ d + 1) :
    shape.toJson.IsExact ∧ Shape.read? (d + 1) shape.toJson = some shape := by
  cases shape with
  | var name =>
      refine ⟨by simp [Shape.toJson], ?_⟩
      simp [Shape.toJson, Shape.read?, record, variant?, ofString, text?]
  | bool value =>
      refine ⟨by simp [Shape.toJson], ?_⟩
      simp [Shape.toJson, Shape.read?, record, variant?, Json.bool?]
  | int value =>
      refine ⟨by simp [Shape.toJson], ?_⟩
      simp [Shape.toJson, Shape.read?, record, variant?, Json.int64?_int]
  | call callee args =>
      rw [Shape.toJson, Expr.toJsonAll_eq_map] at hshape ⊢
      have hinner := ((depth_record_cons_le _ _ _).1 hshape).1
      obtain ⟨d, rfl⟩ := exists_of_depth_record_le hinner
      simp only [depth_record_cons_le] at hinner
      obtain ⟨d, rfl⟩ := exists_of_depth_arr_le hinner.1
      obtain ⟨hexact, hargs⟩ := (ih d (by omega)).expr.kept_items args hinner.1
      obtain ⟨hexact', hcallee⟩ := (ih (d + 1) (by omega)).expr.kept callee hinner.2.1
      refine ⟨by simp [hexact, hexact'], ?_⟩
      simp [Shape.read?, record, variant?, fields?, member?, items?, hargs, hcallee]
  | letIn name value body =>
      rw [Shape.toJson] at hshape ⊢
      have hinner := ((depth_record_cons_le _ _ _).1 hshape).1
      obtain ⟨d, rfl⟩ := exists_of_depth_record_le hinner
      simp only [depth_record_cons_le] at hinner
      have hexpr := (ih d (by omega)).expr
      obtain ⟨hexact, hbody⟩ := hexpr.kept body hinner.1
      obtain ⟨hexact', hvalue⟩ := hexpr.kept value hinner.2.2.1
      refine ⟨by simp [hexact, hexact'], ?_⟩
      simp [Shape.read?, record, variant?, fields?, member?, ofString, text?, hbody, hvalue]
  | ite test onTrue onFalse =>
      rw [Shape.toJson] at hshape ⊢
      have hinner := ((depth_record_cons_le _ _ _).1 hshape).1
      obtain ⟨d, rfl⟩ := exists_of_depth_record_le hinner
      simp only [depth_record_cons_le] at hinner
      have hexpr := (ih d (by omega)).expr
      obtain ⟨hexact, htest⟩ := hexpr.kept test hinner.1
      obtain ⟨hexact', hfalse⟩ := hexpr.kept onFalse hinner.2.1
      obtain ⟨hexact'', htrue⟩ := hexpr.kept onTrue hinner.2.2.1
      refine ⟨by simp [hexact, hexact', hexact''], ?_⟩
      simp [Shape.read?, record, variant?, fields?, member?, htest, hfalse, htrue]
  | lambda params body =>
      rw [Shape.toJson] at hshape ⊢
      have hinner := ((depth_record_cons_le _ _ _).1 hshape).1
      obtain ⟨d, rfl⟩ := exists_of_depth_record_le hinner
      simp only [depth_record_cons_le] at hinner
      obtain ⟨d, rfl⟩ := exists_of_depth_arr_le hinner.2.1
      obtain ⟨hexact, hparams⟩ := Json.fits_text.kept_items params hinner.2.1
      obtain ⟨hexact', hbody⟩ := (ih (d + 1) (by omega)).expr.kept body hinner.1
      refine ⟨by simp [hexact, hexact'], ?_⟩
      simp [Shape.read?, record, variant?, fields?, member?, items?, hparams, hbody]
  | cast expr target =>
      rw [Shape.toJson_cast] at hshape ⊢
      have hinner := ((depth_record_cons_le _ _ _).1 hshape).1
      obtain ⟨d, rfl⟩ := exists_of_depth_record_le hinner
      simp only [depth_record_cons_le] at hinner
      have hall := ih d (by omega)
      obtain ⟨hexact, hcontract⟩ := hall.contract.kept _ hinner.1
      obtain ⟨hexact', hexpr⟩ := hall.expr.kept expr hinner.2.1
      obtain ⟨hexact'', hty⟩ := hall.ty.kept _ hinner.2.2.1
      refine ⟨by simp [hexact, hexact', hexact''], ?_⟩
      simp [Shape.read?, record, variant?, fields?, member?, hcontract, hexpr, hty]

/-- What is read as a shape is no deeper than the reader goes. -/
theorem depth_shape_le (ih : ∀ k ≤ d, FitsAll k) {j : Json} {shape : Shape}
    (h : Shape.read? (d + 1) j = some shape) : shape.toJson.depth ≤ d + 1 := by
  rw [Shape.read?] at h
  obtain ⟨⟨tag, inner⟩, -, h⟩ := Option.bind_eq_some_iff.1 h
  split at h
  · obtain ⟨name, -, h⟩ := Option.bind_eq_some_iff.1 h
    cases h
    simp [Shape.toJson]
  · obtain ⟨value, -, h⟩ := Option.bind_eq_some_iff.1 h
    cases h
    simp [Shape.toJson]
  · obtain ⟨value, -, h⟩ := Option.bind_eq_some_iff.1 h
    cases h
    simp [Shape.toJson]
  · split at h
    · obtain ⟨fields, -, h⟩ := Option.bind_eq_some_iff.1 h
      split at h
      · obtain ⟨callee, hcallee, h⟩ := Option.bind_eq_some_iff.1 h
        obtain ⟨items, -, h⟩ := Option.bind_eq_some_iff.1 h
        obtain ⟨args, hargs, h⟩ := Option.bind_eq_some_iff.1 h
        cases h
        have hdepth := (ih _ (by omega)).expr.depth_items_le hargs
        have hdepth' := (ih _ (by omega)).expr.depth_le hcallee
        simp [Shape.toJson, Expr.toJsonAll_eq_map, hdepth, hdepth']
      · cases h
    · cases h
  · split at h
    · obtain ⟨fields, -, h⟩ := Option.bind_eq_some_iff.1 h
      split at h
      · obtain ⟨name, -, h⟩ := Option.bind_eq_some_iff.1 h
        obtain ⟨value, hvalue, h⟩ := Option.bind_eq_some_iff.1 h
        obtain ⟨body, hbody, h⟩ := Option.bind_eq_some_iff.1 h
        cases h
        have hdepth := (ih _ (by omega)).expr.depth_le hvalue
        have hdepth' := (ih _ (by omega)).expr.depth_le hbody
        simp [Shape.toJson, hdepth, hdepth']
      · cases h
    · cases h
  · split at h
    · obtain ⟨fields, -, h⟩ := Option.bind_eq_some_iff.1 h
      split at h
      · obtain ⟨test, htest, h⟩ := Option.bind_eq_some_iff.1 h
        obtain ⟨onTrue, htrue, h⟩ := Option.bind_eq_some_iff.1 h
        obtain ⟨onFalse, hfalse, h⟩ := Option.bind_eq_some_iff.1 h
        cases h
        have hdepth := (ih _ (by omega)).expr.depth_le htest
        have hdepth' := (ih _ (by omega)).expr.depth_le htrue
        have hdepth'' := (ih _ (by omega)).expr.depth_le hfalse
        simp [Shape.toJson, hdepth, hdepth', hdepth'']
      · cases h
    · cases h
  · split at h
    · obtain ⟨fields, -, h⟩ := Option.bind_eq_some_iff.1 h
      split at h
      · obtain ⟨items, -, h⟩ := Option.bind_eq_some_iff.1 h
        obtain ⟨params, hparams, h⟩ := Option.bind_eq_some_iff.1 h
        obtain ⟨body, hbody, h⟩ := Option.bind_eq_some_iff.1 h
        cases h
        have hdepth := fun d => (Json.fits_text (d := d)).depth_items_le hparams
        have hdepth' := (ih _ (by omega)).expr.depth_le hbody
        simp [Shape.toJson, hdepth, hdepth']
      · cases h
    · cases h
  · split at h
    · obtain ⟨fields, -, h⟩ := Option.bind_eq_some_iff.1 h
      split at h
      · obtain ⟨expr, hexpr, h⟩ := Option.bind_eq_some_iff.1 h
        obtain ⟨ty, hty, h⟩ := Option.bind_eq_some_iff.1 h
        obtain ⟨contract, hcontract, h⟩ := Option.bind_eq_some_iff.1 h
        cases h
        have hdepth := (ih _ (by omega)).expr.depth_le hexpr
        have hdepth' := (ih _ (by omega)).ty.depth_le hty
        have hdepth'' := (ih _ (by omega)).contract.depth_le hcontract
        simp [Shape.toJson_cast, hdepth, hdepth', hdepth'']
      · cases h
    · cases h
  · cases h

theorem fits_shape (ih : ∀ k ≤ d, FitsAll k) :
    Fits (d + 1) (Shape.read? (d + 1)) Shape.toJson :=
  ⟨kept_shape ih, depth_shape_le ih⟩

end

theorem fitsAll (d : Nat) : FitsAll d := by
  induction d using Nat.strongRecOn with
  | ind d ih =>
      cases d with
      | zero =>
          refine ⟨?_, ?_, ?_, ?_, ?_, ?_⟩
          · exact Json.fits_zero (fun _ => by rw [Ty.read?]) fun t => by
              cases t <;> exact ⟨_, rfl⟩
          · exact Json.fits_zero (fun _ => by rw [RefinedTy.read?]) fun t => ⟨_, t.toJson_eq⟩
          · exact Json.fits_zero (fun _ => by rw [Refinement.read?]) fun r => ⟨_, r.toJson_eq⟩
          · exact Json.fits_zero (fun _ => by rw [Clause.read?]) fun clause => by
              cases clause <;> exact ⟨_, rfl⟩
          · exact Json.fits_zero (fun _ => by rw [Expr.read?]) fun ⟨_, _, _⟩ =>
              ⟨_, by rw [Expr.toJson]⟩
          · exact Json.fits_zero (fun _ => by rw [Shape.read?]) fun shape => by
              cases shape with
              | cast expr target => exact ⟨_, Shape.toJson_cast expr target⟩
              | _ => exact ⟨_, by rw [Shape.toJson]⟩
      | succ d =>
          have ih : ∀ k ≤ d, FitsAll k := fun k hk => ih k (by omega)
          exact ⟨fits_ty ih, fits_refined ih, fits_refinement ih, fits_clause ih, fits_expr ih,
            fits_shape ih⟩

theorem Origin.ofName?_name (origin : Origin) : Origin.ofName? origin.name = some origin := by
  cases origin <;> rfl

theorem fits_origin {d : Nat} : Fits d (Origin.read? d) fun origin => ofString origin.name := by
  refine ⟨fun origin _ => ⟨rfl, ?_⟩, fun _ => Nat.zero_le _⟩
  rw [ofString, Origin.read?, Option.bind_some, Origin.ofName?_name]

theorem fits_signature : ∀ {d : Nat}, Fits d (Signature.read? d) Signature.toJson
  | 0 => Json.fits_zero (fun _ => rfl) fun _ => ⟨_, rfl⟩
  | d + 1 => by
      refine ⟨fun sig hsig => ?_, fun {j sig} h => ?_⟩
      · rw [Signature.toJson] at hsig ⊢
        simp only [depth_record_cons_le] at hsig
        obtain ⟨-, horigin⟩ := fits_origin.kept sig.origin hsig.1
        obtain ⟨hexact, hty⟩ := (fitsAll d).refined.kept sig.ty hsig.2.1
        refine ⟨by simp [hexact], ?_⟩
        simp [Signature.read?, record, fields?, member?, horigin, hty]
      · rw [Signature.read?] at h
        obtain ⟨fields, -, h⟩ := Option.bind_eq_some_iff.1 h
        split at h
        · obtain ⟨origin, -, h⟩ := Option.bind_eq_some_iff.1 h
          obtain ⟨ty, hty, h⟩ := Option.bind_eq_some_iff.1 h
          cases h
          simp [Signature.toJson, (fitsAll d).refined.depth_le hty]
        · cases h

namespace NameMap

variable {α : Type}

/-- A map is made of its entries. -/
theorem ofList_entries (m : NameMap α) : ofList m.entries = m := by
  apply ext_get?
  intro name
  rw [ofList, get?_foldl_insert m.sorted, get?_empty, Option.or_none]
  rfl

theorem mem_foldl_insert {l : List (String × α)} {m : NameMap α} {e : String × α}
    (h : e ∈ (l.foldl (fun m e => m.insert e.1 e.2) m).entries) : e ∈ l ∨ e ∈ m.entries := by
  induction l generalizing m with
  | nil => exact .inr h
  | cons head l ih =>
      rcases ih h with h | h
      · exact .inl (List.mem_cons_of_mem _ h)
      · rcases mem_insertEntry h with rfl | h
        · exact .inl List.mem_cons_self
        · exact .inr h

theorem mem_of_mem_ofList {l : List (String × α)} {e : String × α} (h : e ∈ (ofList l).entries) :
    e ∈ l := (mem_foldl_insert h).resolve_right List.not_mem_nil

end NameMap

/-- Entries are written and read one by one, and what an entry is written to nests as deep as its
signature. -/
theorem Env.kept_entries {d : Nat} {entries : List (String × Signature)}
    (h : (record (entries.map fun (name, sig) => (name, Signature.toJson sig))).depth ≤ d + 1) :
    (record (entries.map fun (name, sig) => (name, Signature.toJson sig))).IsExact ∧
      (entries.map fun (name, sig) => (some name, Signature.toJson sig)).mapM
        (fun (name, j) => do return (← name, ← Signature.read? d j)) = some entries := by
  induction entries with
  | nil => exact ⟨trivial, rfl⟩
  | cons entry entries ih =>
      obtain ⟨name, sig⟩ := entry
      rw [List.map_cons, depth_record_cons_le] at h
      obtain ⟨hexact, hread⟩ := fits_signature.kept sig h.1
      obtain ⟨hexact', hentries⟩ := ih h.2
      refine ⟨by simpa using ⟨hexact, hexact'⟩, ?_⟩
      rw [List.map_cons, List.mapM_cons, hentries]
      simp [hread]

theorem Env.depth_entries_le {d : Nat} {entries : List (String × Signature)}
    (h : ∀ entry ∈ entries, entry.2.toJson.depth ≤ d) :
    (record (entries.map fun (name, sig) => (name, Signature.toJson sig))).depth ≤ d + 1 := by
  induction entries with
  | nil => exact Json.depth_record_nil_le
  | cons entry entries ih =>
      obtain ⟨hentry, hentries⟩ := List.forall_mem_cons.1 h
      rw [List.map_cons, depth_record_cons_le]
      exact ⟨hentry, ih hentries⟩

theorem fits_env : ∀ {d : Nat}, Fits d (Env.read? d) Env.toJson
  | 0 => Json.fits_zero (fun _ => rfl) fun _ => ⟨_, rfl⟩
  | d + 1 => by
      refine ⟨fun env henv => ?_, fun {j env} h => ?_⟩
      · obtain ⟨hexact, hentries⟩ := Env.kept_entries henv
        refine ⟨hexact, ?_⟩
        rw [Env.toJson, record, List.map_map, Env.read?]
        refine Option.bind_eq_some_iff.2 ⟨env.entries, hentries, ?_⟩
        rw [NameMap.ofList_entries]
        rfl
      · cases j with
        | obj members =>
            rw [Env.read?] at h
            obtain ⟨entries, hentries, h⟩ := Option.bind_eq_some_iff.1 h
            cases h
            refine Env.depth_entries_le fun entry hentry => ?_
            obtain ⟨⟨key, j⟩, -, hread⟩ := Json.exists_of_mapM_eq_some hentries
              (NameMap.mem_of_mem_ofList hentry)
            obtain ⟨name, -, hread⟩ := Option.bind_eq_some_iff.1 hread
            obtain ⟨sig, hsig, hread⟩ := Option.bind_eq_some_iff.1 hread
            cases hread
            exact fits_signature.depth_le hsig
        | null => cases h
        | bool b => cases h
        | int n => cases h
        | decimal => cases h
        | str text => cases h
        | arr items => cases h

theorem fits_program : ∀ {d : Nat}, 0 < d → Fits (d + 1) (Program.read? (d + 1)) Program.toJson
  | d, hd => by
      have hsource : FitsField d (Json.nullable? text?) (ofOption ofString) :=
        Json.fits_text.nullable fun _ => nofun
      refine ⟨fun p hp => ?_, fun {j p} h => ?_⟩
      · rw [Program.toJson] at hp ⊢
        simp only [depth_record_cons_le] at hp
        obtain ⟨hexact, hexpr⟩ := (fitsAll d).expr.kept _ hp.1
        obtain ⟨hexact', henv⟩ := fits_env.kept _ hp.2.1
        obtain ⟨hexact'', htext⟩ := hsource.kept _ hp.2.2.1
        refine ⟨by simp [hexact, hexact', hexact''], ?_⟩
        simp [Program.read?, record, fields?, member?, Json.optional?, hexpr, henv, htext]
      · rw [Program.read?] at h
        obtain ⟨fields, -, h⟩ := Option.bind_eq_some_iff.1 h
        split at h
        · obtain ⟨source, htext, h⟩ := Option.bind_eq_some_iff.1 h
          obtain ⟨signatures, henv, h⟩ := Option.bind_eq_some_iff.1 h
          obtain ⟨expr, hexpr, h⟩ := Option.bind_eq_some_iff.1 h
          cases h
          have hdepth : (Env.toJson signatures).depth ≤ d := by
            unfold Json.optional? at henv
            split at henv
            · cases henv
              exact hd
            · exact fits_env.depth_le henv
          simp [Program.toJson, (fitsAll d).expr.depth_le hexpr, hdepth, hsource.depth_le htext]
        · cases h

/-- Programs keep through JSON. The written form of a program that nests no deeper than may be read
stands for its JSON value and is read back as the same program. Of whatever is read, in whatever
form it was spelled, the written form nests no deeper than may be read, so it is read back as the
same program and writing that again gives the same text. -/
theorem Program.round_trip :
    (∀ p : Program, p.toJson.depth ≤ readingDepth →
      Json.parse p.write = some p.toJson ∧ Program.parse p.write = some p) ∧
    ∀ (text : String) (p : Program), Program.parse text = some p →
      p.toJson.depth ≤ readingDepth ∧ Program.parse p.write = some p ∧
        (Program.parse p.write).map Program.write = some p.write := by
  have hfits : Fits readingDepth (Program.read? readingDepth) Program.toJson :=
    fits_program (d := 126) (by decide)
  have hwritten : ∀ p : Program, p.toJson.depth ≤ readingDepth →
      Json.parse p.write = some p.toJson ∧ Program.parse p.write = some p := by
    intro p hp
    obtain ⟨hexact, hread⟩ := hfits.kept p hp
    have hjson : Json.parse p.write = some p.toJson := Json.parse_render hexact
    exact ⟨hjson, by rw [Program.parse, hjson, Option.bind_some, hread]⟩
  refine ⟨hwritten, fun text p h => ?_⟩
  obtain ⟨j, -, hj⟩ := Option.bind_eq_some_iff.1 h
  have hdepth := hfits.depth_le hj
  have hparse := (hwritten p hdepth).2
  exact ⟨hdepth, hparse, by rw [hparse, Option.map_some]⟩

/-- A program whose texts have to be escaped. -/
def escapedProgram : Program := ⟨some "\x08é", ∅, .var "\"\n" .int⟩

/-- A program out of order: an array, with a signature that a later one replaces, a member that is
ignored, and options left out. -/
def looseText : String :=
  "[null, \x7b\"f\": [\"value\", [\x7b\"con\": \"bool\"\x7d]], " ++
    "\"f\": \x7b\"ty\": [\x7b\"con\": \"int\"\x7d], " ++
    "\"origin\": \x7b\"value\": null\x7d\x7d\x7d, " ++
    "\x7b\"kind\": \x7b\"int\": -9223372036854775808\x7d, \"note\": [1.5], " ++
    "\"ty\": \x7b\"var\": 4294967295\x7d\x7d]"

/-- The same program as it is written. -/
def strictText : String :=
  "\x7b\"expr\":\x7b\"kind\":\x7b\"int\":-9223372036854775808\x7d,\"span\":null," ++
    "\"ty\":\x7b\"var\":4294967295\x7d\x7d,\"signatures\":\x7b\"f\":\x7b\"origin\":\"value\"," ++
    "\"ty\":\x7b\"refinement\":null,\"ty\":\x7b\"con\":\"int\"\x7d\x7d\x7d\x7d,\"source\":null\x7d"

/-- Escapes are read back, and a program out of order is put in order once. -/
theorem Program.round_trip_loose :
    (escapedProgram.toJson.depth ≤ readingDepth ∧
      Program.parse escapedProgram.write = some escapedProgram) ∧
    ∃ p, Program.parse looseText = some p ∧ p.write = strictText ∧
      p.toJson.depth ≤ readingDepth ∧ Program.parse strictText = some p := by
  have hdepth : escapedProgram.toJson.depth ≤ readingDepth := by decide +kernel
  have hloose : (Program.parse looseText).map Program.write = some strictText := by decide +kernel
  obtain ⟨p, hp, hstrict⟩ := Option.map_eq_some_iff.1 hloose
  obtain ⟨hshallow, hagain, -⟩ := Program.round_trip.2 looseText p hp
  exact ⟨⟨hdepth, (Program.round_trip.1 escapedProgram hdepth).2⟩, p, hp, hstrict, hshallow,
    hstrict ▸ hagain⟩

end ContractCheck
