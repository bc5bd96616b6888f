import ContractCheck.Program.Reader
import ContractCheck.Proofs.JsonForms
import ContractCheck.Proofs.ProgramJson

/-!
The spellings of a program. Each record of a program may be an array or an object, and the choices
at one do not depend on those at another, so a program has a form (`Program.form`) that is put
together of the forms of its parts. All spellings mean the same: a text of any of them is read as
the program if what is read nests no deeper than may be read, and it is refused if any record's key
was repeated in it (`Program.parse_spelling`).
-/

namespace ContractCheck

open Json (Form Plain Each Items Variant Required Nullable Defaulted Record Found Reads ofString
  ofNat nullable?)

def Span.form (s : Span) : Form Json :=
  Record [("start", Required (Plain (ofNat s.start.toNat))),
    ("len", Required (Plain (ofNat s.len.toNat)))]

mutual

def Ty.form : Ty → Form Json
  | .con name => Variant "con" (Plain (ofString name))
  | .var id => Variant "var" (Plain (ofNat id.toNat))
  | .app name args => Variant "app" (Record [("name", Required (Plain (ofString name))),
      ("args", Required (Items (Ty.forms args)))])
  | .arrow params ret => Variant "arrow" (Record [
      ("params", Required (Items (RefinedTy.forms params))), ("ret", Required ret.form)])

def Ty.forms : List Ty → List (Form Json)
  | [] => []
  | t :: ts => t.form :: Ty.forms ts

def RefinedTy.form : RefinedTy → Form Json
  | .plain ty => Record [("ty", Required ty.form), ("refinement", Nullable none)]
  | .refined ty refinement =>
    Record [("ty", Required ty.form), ("refinement", Nullable (some refinement.form))]

def RefinedTy.forms : List RefinedTy → List (Form Json)
  | [] => []
  | t :: ts => t.form :: RefinedTy.forms ts

def Refinement.form : Refinement → Form Json
  | .bind binder =>
    Record [("binder", Required (Plain (ofString binder))), ("clause", Nullable none)]
  | .holds binder pred => Record [("binder", Required (Plain (ofString binder))),
      ("clause", Nullable (some (Variant "holds" pred.form)))]
  | .equals binder value => Record [("binder", Required (Plain (ofString binder))),
      ("clause", Nullable (some (Variant "equals" value.form)))]

def Expr.form : Expr → Form Json
  | ⟨ty, shape, span⟩ => Record [("ty", Required ty.form), ("kind", Required shape.form),
      ("span", Nullable (span.map Span.form))]

def Expr.forms : List Expr → List (Form Json)
  | [] => []
  | e :: es => e.form :: Expr.forms es

def Shape.form : Shape → Form Json
  | .var name => Variant "var" (Plain (ofString name))
  | .bool b => Variant "bool" (Plain (.bool b))
  | .int n => Variant "int" (Plain (.int n.toInt))
  | .call callee args => Variant "call" (Record [("callee", Required callee.form),
      ("args", Required (Items (Expr.forms args)))])
  | .letIn name value body => Variant "let" (Record [("name", Required (Plain (ofString name))),
      ("value", Required value.form), ("body", Required body.form)])
  | .ite test onTrue onFalse => Variant "if" (Record [("cond", Required test.form),
      ("then", Required onTrue.form), ("els", Required onFalse.form)])
  | .lambda params body => Variant "lambda" (Record [
      ("params", Required (Items (params.map fun name => Plain (ofString name)))),
      ("body", Required body.form)])
  | .cast expr (.plain ty) => Variant "cast" (Record [("expr", Required expr.form),
      ("ty", Required ty.form), ("contract", Nullable none)])
  | .cast expr (.refined ty refinement) => Variant "cast" (Record [("expr", Required expr.form),
      ("ty", Required ty.form), ("contract", Nullable (some refinement.form))])

end

/-- An origin is its name, or an object of its name and null. -/
inductive Origin.Form (origin : Origin) : Form Json where
  | name {depth n : Nat} {j : Json} (h : Plain (ofString origin.name) depth n j) :
      Origin.Form origin depth n j
  | variant {depth n : Nat} {j : Json} (h : Variant origin.name (Plain .null) depth n j) :
      Origin.Form origin depth n j

def Signature.form (sig : Signature) : Form Json :=
  Record [("origin", Required (Origin.Form sig.origin)), ("ty", Required sig.ty.form)]

/-- The member of an object that spells an entry. -/
inductive Env.EntryForm (entry : String × Signature) : Form (Option String × Json) where
  | intro {depth n : Nat} {j : Json} (h : entry.2.form depth n j) :
      Env.EntryForm entry depth n (some entry.1, j)

/-- An object of entries in any order, of which a later one counts over an earlier one of its
name. -/
inductive Env.Form (env : Env) : Form Json where
  | intro {depth n : Nat} {entries : List (String × Signature)}
      {members : List (Option String × Json)} (hentries : NameMap.ofList entries = env)
      (h : Each (entries.map Env.EntryForm) depth n members) :
      Env.Form env (depth + 1) n (.obj members)

def Program.form (p : Program) : Form Json :=
  Record [("source", Nullable (p.source.map fun text => Plain (ofString text))),
    ("signatures", Defaulted (p.signatures = ∅) (Env.Form p.signatures)),
    ("expr", Required p.expr.form)]

theorem reads_span (s : Span) : Reads Span.read? s.form s := by
  refine .of_succ (fun _ => rfl) (·.depth_pos) fun h fuel => ?_
  refine h.found ["start", "len"] rfl (by decide) fun k given hdepth heach => ?_
  obtain ⟨_, _, _, _, rfl, rfl, ⟨⟨⟩⟩, ⟨⟨⟩⟩⟩ := heach.exists_pair
  simp only [Json.word64?_ofNat]
  exact .some

theorem reads_con (name : String) :
    Reads Ty.read? (Variant "con" (Plain (ofString name))) (.con name) :=
  Json.reads_variant_plain (fun _ => by rw [Ty.read?]) fun _ => by
    rw [Ty.read?]
    rfl

theorem reads_tyVar (id : UInt32) :
    Reads Ty.read? (Variant "var" (Plain (ofNat id.toNat))) (.var id) :=
  Json.reads_variant_plain (fun _ => by rw [Ty.read?]) fun fuel => by
    have h : Ty.read? (fuel + 1) (.obj [(some "var", ofNat id.toNat)]) =
        (do return .var (← word32? (ofNat id.toNat))) := by
      rw [Ty.read?]
      rfl
    rw [h, Json.word32?_ofNat]
    rfl

theorem reads_app {argForms : List (Form Json)} {args : List Ty}
    (hargs : List.Forall₂ (Reads Ty.read?) argForms args) (name : String) :
    Reads Ty.read? (Variant "app" (Record [("name", Required (Plain (ofString name))),
      ("args", Required (Items argForms))])) (.app name args) := by
  refine .of_succ (fun _ => by rw [Ty.read?]) (·.depth_pos) fun h fuel => ?_
  rw [Ty.read?]
  refine h.found fun k inner hdepth hinner => ?_
  -- the fields and the array among them nest two levels deep, which is what the reader asks for
  have hdeep := hinner.two_le_depth argForms (by simp)
  rcases fuel with _ | _ | fuel
  · exact .none (by omega)
  · exact .none (by omega)
  · refine hinner.found ["name", "args"] rfl (by decide) fun k' given hdepth' heach => ?_
    obtain ⟨_, _, _, _, rfl, rfl, ⟨⟨⟩⟩, ⟨⟨hitems⟩⟩⟩ := heach.exists_pair
    exact (Found.map₂ .some (hitems.found hargs fuel) Ty.app).imp (by omega)

theorem reads_arrow {paramForms : List (Form Json)} {params : List RefinedTy}
    (hparams : List.Forall₂ (Reads RefinedTy.read?) paramForms params) {retForm : Form Json}
    {ret : RefinedTy} (hret : Reads RefinedTy.read? retForm ret) :
    Reads Ty.read? (Variant "arrow" (Record [("params", Required (Items paramForms)),
      ("ret", Required retForm)])) (.arrow params ret) := by
  refine .of_succ (fun _ => by rw [Ty.read?]) (·.depth_pos) fun h fuel => ?_
  rw [Ty.read?]
  refine h.found fun k inner hdepth hinner => ?_
  have hdeep := hinner.two_le_depth paramForms (by simp)
  rcases fuel with _ | _ | fuel
  · exact .none (by omega)
  · exact .none (by omega)
  · refine hinner.found ["params", "ret"] rfl (by decide) fun k' given hdepth' heach => ?_
    obtain ⟨_, _, _, _, rfl, rfl, ⟨⟨hitems⟩⟩, ⟨hj⟩⟩ := heach.exists_pair
    exact (((hitems.found hparams fuel).imp Nat.le_of_succ_le_succ).map₂ (hret.found hj (fuel + 1))
      Ty.arrow).imp (by omega)

theorem reads_refinedTy {tyForm : Form Json} {ty : Ty} (hty : Reads Ty.read? tyForm ty)
    {refinementForm : Form (Option Json)} {refinement : Option Refinement}
    (hrefinement : Reads (fun fuel => nullable? (Refinement.read? fuel)) refinementForm
      refinement) :
    Reads RefinedTy.read? (Record [("ty", Required tyForm), ("refinement", refinementForm)])
      (.ofRefinement? ty refinement) := by
  refine .of_succ (fun _ => by rw [RefinedTy.read?]) (·.depth_pos) fun h fuel => ?_
  rw [RefinedTy.read?]
  refine h.found ["ty", "refinement"] rfl (by decide) fun k given hdepth heach => ?_
  obtain ⟨_, _, _, _, rfl, rfl, ⟨hj⟩, hg⟩ := heach.exists_pair
  exact ((hty.found hj fuel).map₂ (hrefinement.found hg fuel) RefinedTy.ofRefinement?).imp
    (by omega)

theorem reads_refinement (binder : String) {clauseForm : Form (Option Json)}
    {clause : Option Clause}
    (hclause : Reads (fun fuel => nullable? (Clause.read? fuel)) clauseForm clause) :
    Reads Refinement.read? (Record [("binder", Required (Plain (ofString binder))),
      ("clause", clauseForm)]) (.ofClause? binder clause) := by
  refine .of_succ (fun _ => by rw [Refinement.read?]) (·.depth_pos) fun h fuel => ?_
  rw [Refinement.read?]
  refine h.found ["binder", "clause"] rfl (by decide) fun k given hdepth heach => ?_
  obtain ⟨_, _, _, _, rfl, rfl, ⟨⟨⟩⟩, hg⟩ := heach.exists_pair
  exact (Found.map₂ .some (hclause.found hg fuel) Refinement.ofClause?).imp (by omega)

section

variable {form : Form Json} {e : Expr} (h : Reads Expr.read? form e)
include h

theorem reads_holds : Reads Clause.read? (Variant "holds" form) (.holds e) := by
  refine .of_succ (fun _ => by rw [Clause.read?]) (·.depth_pos) fun hj fuel => ?_
  rw [Clause.read?]
  exact hj.found fun k inner hdepth hinner =>
    ((h.found hinner fuel).map Clause.holds).imp (by omega)

theorem reads_equals : Reads Clause.read? (Variant "equals" form) (.equals e) := by
  refine .of_succ (fun _ => by rw [Clause.read?]) (·.depth_pos) fun hj fuel => ?_
  rw [Clause.read?]
  exact hj.found fun k inner hdepth hinner =>
    ((h.found hinner fuel).map Clause.equals).imp (by omega)

end

theorem reads_expr {tyForm shapeForm : Form Json} {ty : Ty} {shape : Shape}
    (hty : Reads Ty.read? tyForm ty) (hshape : Reads Shape.read? shapeForm shape)
    {spanForm : Form (Option Json)} {span : Option Span}
    (hspan : Reads (fun fuel => nullable? (Span.read? fuel)) spanForm span) :
    Reads Expr.read? (Record [("ty", Required tyForm), ("kind", Required shapeForm),
      ("span", spanForm)]) ⟨ty, shape, span⟩ := by
  refine .of_succ (fun _ => by rw [Expr.read?]) (·.depth_pos) fun h fuel => ?_
  rw [Expr.read?]
  refine h.found ["ty", "kind", "span"] rfl (by decide) fun k given hdepth heach => ?_
  obtain ⟨_, _, _, _, _, _, rfl, rfl, ⟨hj⟩, ⟨hj'⟩, hg⟩ := heach.exists_triple
  exact ((hty.found hj fuel).map₃ (hshape.found hj' fuel) (hspan.found hg fuel) Expr.mk).imp
    (by omega)

theorem reads_var (name : String) :
    Reads Shape.read? (Variant "var" (Plain (ofString name))) (.var name) :=
  Json.reads_variant_plain (fun _ => by rw [Shape.read?]) fun _ => by
    rw [Shape.read?]
    rfl

theorem reads_bool (b : Bool) : Reads Shape.read? (Variant "bool" (Plain (.bool b))) (.bool b) :=
  Json.reads_variant_plain (fun _ => by rw [Shape.read?]) fun _ => by
    rw [Shape.read?]
    rfl

theorem reads_int (n : Int64) :
    Reads Shape.read? (Variant "int" (Plain (.int n.toInt))) (.int n) :=
  Json.reads_variant_plain (fun _ => by rw [Shape.read?]) fun fuel => by
    have h : Shape.read? (fuel + 1) (.obj [(some "int", .int n.toInt)]) =
        (do return .int (← int64? (.int n.toInt))) := by
      rw [Shape.read?]
      rfl
    rw [h, Json.int64?_int]
    rfl

section

variable {form form' form'' : Form Json} {e e' e'' : Expr}

theorem reads_call (hcallee : Reads Expr.read? form e) {argForms : List (Form Json)}
    {args : List Expr} (hargs : List.Forall₂ (Reads Expr.read?) argForms args) :
    Reads Shape.read? (Variant "call" (Record [("callee", Required form),
      ("args", Required (Items argForms))])) (.call e args) := by
  refine .of_succ (fun _ => by rw [Shape.read?]) (·.depth_pos) fun h fuel => ?_
  rw [Shape.read?]
  refine h.found fun k inner hdepth hinner => ?_
  have hdeep := hinner.two_le_depth argForms (by simp)
  rcases fuel with _ | _ | fuel
  · exact .none (by omega)
  · exact .none (by omega)
  · refine hinner.found ["callee", "args"] rfl (by decide) fun k' given hdepth' heach => ?_
    obtain ⟨_, _, _, _, rfl, rfl, ⟨hj⟩, ⟨⟨hitems⟩⟩⟩ := heach.exists_pair
    exact ((hcallee.found hj (fuel + 1)).map₂
      ((hitems.found hargs fuel).imp Nat.le_of_succ_le_succ) Shape.call).imp (by omega)

theorem reads_letIn (name : String) (hvalue : Reads Expr.read? form e)
    (hbody : Reads Expr.read? form' e') :
    Reads Shape.read? (Variant "let" (Record [("name", Required (Plain (ofString name))),
      ("value", Required form), ("body", Required form')])) (.letIn name e e') := by
  refine .of_succ (fun _ => by rw [Shape.read?]) (·.depth_pos) fun h fuel => ?_
  rw [Shape.read?]
  refine h.found fun k inner hdepth hinner => ?_
  have hdeep := hinner.depth_pos
  rcases fuel with _ | fuel
  · exact .none (by omega)
  · refine hinner.found ["name", "value", "body"] rfl (by decide) fun k' given hdepth' heach => ?_
    obtain ⟨_, _, _, _, _, _, rfl, rfl, ⟨⟨⟩⟩, ⟨hj⟩, ⟨hj'⟩⟩ := heach.exists_triple
    exact (Found.map₃ .some (hvalue.found hj fuel) (hbody.found hj' fuel) Shape.letIn).imp
      (by omega)

theorem reads_ite (htest : Reads Expr.read? form e) (honTrue : Reads Expr.read? form' e')
    (honFalse : Reads Expr.read? form'' e'') :
    Reads Shape.read? (Variant "if" (Record [("cond", Required form), ("then", Required form'),
      ("els", Required form'')])) (.ite e e' e'') := by
  refine .of_succ (fun _ => by rw [Shape.read?]) (·.depth_pos) fun h fuel => ?_
  rw [Shape.read?]
  refine h.found fun k inner hdepth hinner => ?_
  have hdeep := hinner.depth_pos
  rcases fuel with _ | fuel
  · exact .none (by omega)
  · refine hinner.found ["cond", "then", "els"] rfl (by decide) fun k' given hdepth' heach => ?_
    obtain ⟨_, _, _, _, _, _, rfl, rfl, ⟨hj⟩, ⟨hj'⟩, ⟨hj''⟩⟩ := heach.exists_triple
    exact ((htest.found hj fuel).map₃ (honTrue.found hj' fuel) (honFalse.found hj'' fuel)
      Shape.ite).imp (by omega)

theorem reads_lambda (params : List String) (hbody : Reads Expr.read? form e) :
    Reads Shape.read? (Variant "lambda" (Record [
      ("params", Required (Items (params.map fun name => Plain (ofString name)))),
      ("body", Required form)])) (.lambda params e) := by
  have hparams : List.Forall₂ (Reads fun _ => Json.text?)
      (params.map fun name => Plain (ofString name)) params := by
    rw [List.forall₂_map_left_iff, List.forall₂_same]
    exact fun name _ => Json.reads_plain fun _ => rfl
  refine .of_succ (fun _ => by rw [Shape.read?]) (·.depth_pos) fun h fuel => ?_
  rw [Shape.read?]
  refine h.found fun k inner hdepth hinner => ?_
  have hdeep := hinner.two_le_depth (params.map fun name => Plain (ofString name)) (by simp)
  rcases fuel with _ | _ | fuel
  · exact .none (by omega)
  · exact .none (by omega)
  · refine hinner.found ["params", "body"] rfl (by decide) fun k' given hdepth' heach => ?_
    obtain ⟨_, _, _, _, rfl, rfl, ⟨⟨hitems⟩⟩, ⟨hj⟩⟩ := heach.exists_pair
    exact (((hitems.found hparams fuel).imp Nat.le_of_succ_le_succ).map₂
      (hbody.found hj (fuel + 1)) Shape.lambda).imp (by omega)

theorem reads_cast (hexpr : Reads Expr.read? form e) {tyForm : Form Json} {ty : Ty}
    (hty : Reads Ty.read? tyForm ty) {contractForm : Form (Option Json)}
    {contract : Option Refinement}
    (hcontract : Reads (fun fuel => nullable? (Refinement.read? fuel)) contractForm contract) :
    Reads Shape.read? (Variant "cast" (Record [("expr", Required form), ("ty", Required tyForm),
      ("contract", contractForm)])) (.cast e (.ofRefinement? ty contract)) := by
  refine .of_succ (fun _ => by rw [Shape.read?]) (·.depth_pos) fun h fuel => ?_
  rw [Shape.read?]
  refine h.found fun k inner hdepth hinner => ?_
  have hdeep := hinner.depth_pos
  rcases fuel with _ | fuel
  · exact .none (by omega)
  · refine hinner.found ["expr", "ty", "contract"] rfl (by decide) fun k' given hdepth' heach => ?_
    obtain ⟨_, _, _, _, _, _, rfl, rfl, ⟨hj⟩, ⟨hj'⟩, hg⟩ := heach.exists_triple
    exact ((hexpr.found hj fuel).map₃ (hty.found hj' fuel) (hcontract.found hg fuel)
      fun e ty contract => Shape.cast e (.ofRefinement? ty contract)).imp (by omega)

end

theorem Refinement.not_form_null (r : Refinement) (depth n : Nat) : ¬ r.form depth n .null := by
  cases r <;>
    · rw [Refinement.form]
      exact nofun

mutual

theorem Ty.reads : ∀ t : Ty, Reads Ty.read? t.form t
  | .con name => by
      rw [Ty.form]
      exact reads_con name
  | .var id => by
      rw [Ty.form]
      exact reads_tyVar id
  | .app name args => by
      rw [Ty.form]
      exact reads_app (Ty.reads_forms args) name
  | .arrow params ret => by
      rw [Ty.form]
      exact reads_arrow (RefinedTy.reads_forms params) ret.reads

theorem Ty.reads_forms : ∀ ts : List Ty, List.Forall₂ (Reads Ty.read?) (Ty.forms ts) ts
  | [] => by
      rw [Ty.forms]
      exact .nil
  | t :: ts => by
      rw [Ty.forms]
      exact .cons t.reads (Ty.reads_forms ts)

theorem RefinedTy.reads : ∀ t : RefinedTy, Reads RefinedTy.read? t.form t
  | .plain ty => by
      rw [RefinedTy.form]
      exact reads_refinedTy ty.reads Json.reads_nullable_none
  | .refined ty refinement => by
      rw [RefinedTy.form]
      exact reads_refinedTy ty.reads (refinement.reads.nullable refinement.not_form_null)

theorem RefinedTy.reads_forms : ∀ ts : List RefinedTy,
    List.Forall₂ (Reads RefinedTy.read?) (RefinedTy.forms ts) ts
  | [] => by
      rw [RefinedTy.forms]
      exact .nil
  | t :: ts => by
      rw [RefinedTy.forms]
      exact .cons t.reads (RefinedTy.reads_forms ts)

theorem Refinement.reads : ∀ r : Refinement, Reads Refinement.read? r.form r
  | .bind binder => by
      rw [Refinement.form]
      exact reads_refinement binder Json.reads_nullable_none
  | .holds binder pred => by
      rw [Refinement.form]
      exact reads_refinement binder ((reads_holds pred.reads).nullable fun _ _ => nofun)
  | .equals binder value => by
      rw [Refinement.form]
      exact reads_refinement binder ((reads_equals value.reads).nullable fun _ _ => nofun)

theorem Expr.reads : ∀ e : Expr, Reads Expr.read? e.form e
  | ⟨ty, shape, none⟩ => by
      rw [Expr.form]
      exact reads_expr ty.reads shape.reads Json.reads_nullable_none
  | ⟨ty, shape, some span⟩ => by
      rw [Expr.form]
      exact reads_expr ty.reads shape.reads ((reads_span span).nullable fun _ _ => nofun)

theorem Expr.reads_forms : ∀ es : List Expr, List.Forall₂ (Reads Expr.read?) (Expr.forms es) es
  | [] => by
      rw [Expr.forms]
      exact .nil
  | e :: es => by
      rw [Expr.forms]
      exact .cons e.reads (Expr.reads_forms es)

theorem Shape.reads : ∀ shape : Shape, Reads Shape.read? shape.form shape
  | .var name => by
      rw [Shape.form]
      exact reads_var name
  | .bool b => by
      rw [Shape.form]
      exact reads_bool b
  | .int n => by
      rw [Shape.form]
      exact reads_int n
  | .call callee args => by
      rw [Shape.form]
      exact reads_call callee.reads (Expr.reads_forms args)
  | .letIn name value body => by
      rw [Shape.form]
      exact reads_letIn name value.reads body.reads
  | .ite test onTrue onFalse => by
      rw [Shape.form]
      exact reads_ite test.reads onTrue.reads onFalse.reads
  | .lambda params body => by
      rw [Shape.form]
      exact reads_lambda params body.reads
  | .cast expr (.plain ty) => by
      rw [Shape.form]
      exact reads_cast expr.reads ty.reads Json.reads_nullable_none
  | .cast expr (.refined ty refinement) => by
      rw [Shape.form]
      exact reads_cast expr.reads ty.reads (refinement.reads.nullable refinement.not_form_null)

end

theorem reads_origin (origin : Origin) : Reads Origin.read? (Origin.Form origin) origin := by
  refine ⟨fun h fuel => ?_⟩
  obtain ⟨⟨⟩⟩ | h := h
  · rw [ofString, Origin.read?, Option.bind_some, Origin.ofName?_name]
    exact .some
  · obtain ⟨⟨⟩⟩ := h
    cases fuel with
    | zero => exact .none (by omega)
    | succ fuel =>
        rw [Origin.read?, Origin.ofName?_name]
        exact .some

theorem reads_signature (sig : Signature) : Reads Signature.read? sig.form sig := by
  refine .of_succ (fun _ => rfl) (·.depth_pos) fun h fuel => ?_
  refine h.found ["origin", "ty"] rfl (by decide) fun k given hdepth heach => ?_
  obtain ⟨_, _, _, _, rfl, rfl, ⟨hj⟩, ⟨hj'⟩⟩ := heach.exists_pair
  exact (((reads_origin sig.origin).found hj fuel).map₂ (sig.ty.reads.found hj' fuel)
    Signature.mk).imp (by omega)

theorem reads_env (env : Env) : Reads Env.read? (Env.Form env) env := by
  refine ⟨fun h fuel => ?_⟩
  obtain @⟨_, _, entries, members, rfl, hmembers⟩ := h
  cases fuel with
  | zero => exact .none (by omega)
  | succ fuel =>
      have hentries : List.Forall₂ (Reads fun fuel (m : Option String × Json) =>
          (do return (← m.1, ← Signature.read? fuel m.2) : Option (String × Signature)))
          (entries.map Env.EntryForm) entries := by
        rw [List.forall₂_map_left_iff, List.forall₂_same]
        refine fun entry _ => ⟨fun h fuel => ?_⟩
        obtain ⟨h⟩ := h
        exact ((reads_signature entry.2).found h fuel).map (Prod.mk entry.1)
      exact ((hmembers.found hentries fuel).map NameMap.ofList).imp (by omega)

theorem reads_program (p : Program) : Reads Program.read? p.form p := by
  refine .of_succ (fun _ => rfl) (·.depth_pos) fun h fuel => ?_
  refine h.found ["source", "signatures", "expr"] rfl (by decide) fun k given hdepth heach => ?_
  obtain ⟨_, _, _, _, _, _, rfl, rfl, hsource, hsignatures, ⟨hj⟩⟩ := heach.exists_triple
  have hreads : Reads (fun _ => nullable? Json.text?)
      (Nullable (p.source.map fun text => Plain (ofString text))) p.source := by
    cases p.source with
    | none => exact Json.reads_nullable_none
    | some text =>
        have htext : Reads (fun _ => Json.text?) (Plain (ofString text)) text :=
          Json.reads_plain fun _ => rfl
        exact htext.nullable fun _ _ => nofun
  exact ((hreads.found hsource fuel).map₃
    ((reads_env p.signatures).defaulted.found hsignatures fuel) (p.expr.reads.found hj fuel)
    Program.mk).imp (by omega)

/-- All spellings of a program mean the same. A text of any form of a program, in which nothing that
is read nests deeper than may be read, is read as that program and no other, and if a known key of
one of its records was repeated there, at whatever depth, the text is refused. -/
theorem Program.parse_spelling (p : Program) {depth repeats : Nat} {j : Json} {text : String}
    (hform : p.form depth repeats j) (htext : Json.IsText j text) :
    (repeats = 0 → depth ≤ readingDepth → Program.parse text = some p) ∧
      (repeats ≠ 0 → Program.parse text = none) := by
  have hfound := (reads_program p).found hform readingDepth
  rw [Program.parse, Json.parse_of_isText htext, Option.bind_some]
  exact ⟨hfound.read, hfound.refused⟩

/-- A program with one signature. -/
def spelledProgram : Program := ⟨none, .ofList [("f", .value .int)], .int 7⟩

/-- A signature with its fields and a member that is ignored, out of order, and others at its
end. -/
def spelledSignature (others : Json.Members) : Json :=
  .obj ([(some "ty", .arr [.obj [(some "con", ofString "int")]]), (some "note", .arr [.null])] ++
    [(some "origin", .obj [(some "value", .null)])] ++ others)

/-- The program with the signature spelled in that way, its expression as an array, and its text and
the expression's span left out. -/
def spelledJson (others : Json.Members) : Json :=
  .obj ([(some "expr", .arr [.obj [(some "con", ofString "int")], .obj [(some "int", .int 7)]]),
      (some "other", .int 1)] ++ [(some "signatures", .obj [(some "f", spelledSignature others)])])

theorem form_spelledSignature {others : Json.Members} (h : ∀ m ∈ others, m.1 = some "ty") :
    (Signature.value .int).form 3 (0 + others.length) (spelledSignature others) := by
  have hcon : (Ty.form .int) 1 0 (.obj [(some "con", ofString "int")]) := by
    rw [Ty.int, Ty.form]
    exact .intro .intro
  have hty : RefinedTy.form (.plain .int) 2 0 (.arr [.obj [(some "con", ofString "int")]]) := by
    have hfields := Each.pair (Required.given hcon) Nullable.leftOut
    rw [RefinedTy.form]
    exact @Record.inOrder _ 1 0 1 _ hfields
  have horigin : Origin.Form .value 2 0 (.obj [(some "value", .null)]) := .variant (.intro .intro)
  have hfields := Each.pair (Required.given horigin) (Required.given hty)
  refine @Record.byName _ 2 0 _ _ [(some "note", .arr [.null])] others hfields ?_ (fun m hm => ?_)
    (.append_right _ ?_)
  · rintro m (_ | ⟨_, ⟨⟩⟩)
    exact ⟨"note", rfl, by decide⟩
  · rw [h m hm]
    exact ⟨_, .tail _ (.head _)⟩
  · exact List.perm_append_comm

theorem form_spelledJson (others : Json.Members) (h : ∀ m ∈ others, m.1 = some "ty") :
    spelledProgram.form 5 (others.length + 0) (spelledJson others) := by
  have hcon : (Ty.form .int) 3 0 (.obj [(some "con", ofString "int")]) := by
    rw [Ty.int, Ty.form]
    exact .intro .intro
  have hint : (Shape.int 7).form 3 0 (.obj [(some "int", .int 7)]) := by
    rw [Shape.form]
    exact .intro .intro
  have hexpr : (Expr.int 7).form 4 0
      (.arr [.obj [(some "con", ofString "int")], .obj [(some "int", .int 7)]]) := by
    have hfields := Each.triple (Required.given hcon) (Required.given hint) Nullable.leftOut
    rw [Expr.int, Expr.form]
    exact @Record.inOrder _ 3 0 1 _ hfields
  have henv : Env.Form (.ofList [("f", .value .int)]) 4 others.length
      (.obj [(some "f", spelledSignature others)]) := by
    have hentry : Each ([("f", Signature.value .int)].map Env.EntryForm) 3 (0 + others.length + 0)
        [(some "f", spelledSignature others)] := .cons (.intro (form_spelledSignature h)) .nil
    rw [Nat.zero_add, Nat.add_zero] at hentry
    exact .intro rfl hentry
  have hfields := Each.triple (@Nullable.leftOut 4)
    (@Defaulted.given (spelledProgram.signatures = ∅) _ _ _ _ henv) (Required.given hexpr)
  rw [Nat.zero_add, Nat.add_zero] at hfields
  refine @Record.byName _ 4 _ _ _ [(some "other", .int 1)] [] hfields ?_
    (List.forall_mem_nil _) ?_
  · rintro m (_ | ⟨_, ⟨⟩⟩)
    exact ⟨"other", rfl, by decide⟩
  · exact List.perm_append_comm

/-- One program in a loose spelling, which is refused once a key of its signature is repeated. -/
theorem Program.parse_spelling_loose :
    Program.parse (spelledJson []).render = some spelledProgram ∧
      Program.parse (spelledJson [(some "ty", .null)]).render = none := by
  have hloose : spelledProgram.form 5 0 (spelledJson []) :=
    form_spelledJson [] (List.forall_mem_nil _)
  have hrepeated : spelledProgram.form 5 1 (spelledJson [(some "ty", .null)]) :=
    form_spelledJson [_] fun m hm => by
      rw [List.mem_singleton.1 hm]
  have hexact : (spelledJson []).IsExact ∧ (spelledJson [(some "ty", .null)]).IsExact := by
    simp [spelledJson, spelledSignature, Json.IsExact, Json.AreExact, Json.HasExactMembers,
      ofString]
  exact ⟨(spelledProgram.parse_spelling hloose (Json.isText_render hexact.1)).1 rfl (by decide),
    (spelledProgram.parse_spelling hrepeated (Json.isText_render hexact.2)).2 (by decide)⟩

end ContractCheck
