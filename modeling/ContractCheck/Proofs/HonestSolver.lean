import ContractCheck.Proofs.CommandReader
import ContractCheck.Proofs.ReadingLaw
import ContractCheck.Proofs.SmtScript

/-!
Honest solvers. Whatever such a solver is, it answers `unsat` only if what is asserted in the open
scopes has no model, and it reports an error when a name that an open scope holds is declared again.
Its answers are read one after the other, like those of any solver. A run that has read one `unsat`
for each of its checks and nothing that is late has therefore sent commands that can be trusted
(`trusted_of_replied`).
-/

namespace ContractCheck

open Smt Scripted

namespace Smt

/-- The lines are commands, and a scope that they leave open holds the name. -/
def DeclaredIn (lines : List String) (name : String) : Prop :=
  ∃ commands, lines.mapM Command.read? = some commands ∧
    (Stack.afterAll {} commands).Declares name

instance (st : Stack) (name : String) : Decidable (st.Declares name) :=
  inferInstanceAs (Decidable (∃ scope ∈ st.names, name ∈ scope))

instance (lines : List String) (name : String) : Decidable (DeclaredIn lines name) :=
  match hread : lines.mapM Command.read? with
  | some commands => decidable_of_iff ((Stack.afterAll {} commands).Declares name)
      ⟨fun hname => ⟨commands, hread, hname⟩, fun ⟨_, hcommands, hname⟩ =>
        Option.some.inj (hread.symm.trans hcommands) ▸ hname⟩
  | none => isFalse fun ⟨_, hcommands, _⟩ => Option.some_ne_none _ (hcommands.symm.trans hread)

end Smt

/-- What an honest solver may say to a command once it has accepted the lines. -/
structure HonestReply (lines : List String) (c : Command) (said : List String) : Prop where
  single : answerCount said ≤ 1
  /-- Commands that have no answer are silent unless there is an error. -/
  mute : c.IsMute → answerCount said = 0
  unsat : c = .checkSat → "unsat" ∈ said → ¬ Satisfiable lines
  refuses : ∀ name, c.declared? = some name → DeclaredIn lines name →
    ∃ line ∈ said, Session.isErrorLine line = true

/-- What makes a solver honest, with an account of the lines that it has accepted since it was
launched and of those that it has said and nobody has read. -/
structure HonestSolver (τ ω : Type) [Transport τ ω] where
  accepted : τ → ω → List String
  unread : τ → ω → List String
  launch : ∀ {w w' : ω} {c : τ}, Transport.launch w = (.ok c, w') →
    accepted c w' = [] ∧ unread c w' = []
  send : ∀ {line : String} {w w' : ω} {c c' : τ}, Transport.send line c w = (.ok (), c', w') →
    accepted c' w' = accepted c w ++ [line] ∧ ∃ said, unread c' w' = unread c w ++ said ∧
      ∀ command, Command.read? line = some command → HonestReply (accepted c w) command said
  receive : ∀ {line : String} {w w' : ω} {c c' : τ}, Transport.receive c w = (.ok line, c', w') →
    accepted c' w' = accepted c w ∧ unread c w = line :: unread c' w'

/-- Commands that an honest solver accepts after these lines, and all that it says to them. -/
inductive Replied : List String → List Command → List String → Prop where
  | nil {lines : List String} : Replied lines [] []
  | mute {lines : List String} {c : Command} {rest : List Command} {said later : List String}
      (hmute : c.IsMute) (hreply : HonestReply lines c said)
      (hrest : Replied (lines ++ [c.line]) rest later) : Replied lines (c :: rest) (said ++ later)
  | check {lines : List String} {rest : List Command} {said later : List String}
      (hreply : HonestReply lines .checkSat said)
      (hrest : Replied (lines ++ [Command.checkSat.line]) rest later) :
      Replied lines (.checkSat :: rest) (said ++ later)

/-- Lines are read in the order in which they were said. -/
theorem HonestSolver.replied_of_converses {τ ω : Type} [Transport τ ω]
    (solver : HonestSolver τ ω) {c c' : τ} {w w' : ω} {commands : List Command}
    (h : Converses c w commands c' w') (hlegible : ∀ command ∈ commands, command.IsLegible) :
    ∃ said, Replied (solver.accepted c w) commands said ∧ solver.unread c w ++ said =
      unsats (commands.countP Command.isCheckSat) ++ solver.unread c' w' := by
  induction h with
  | nil c w => exact ⟨[], .nil, by simp [unsats]⟩
  | @send c c₁ c' w w₁ w' command rest hmute hsend _ ih =>
      obtain ⟨hcommand, hrest⟩ := List.forall_mem_cons.1 hlegible
      obtain ⟨haccepted, said, hunread, hreply⟩ := solver.send hsend
      obtain ⟨later, hreplied, hlaw⟩ := ih hrest
      rw [haccepted] at hreplied
      refine ⟨said ++ later, .mute hmute (hreply _ (Command.read?_line hcommand)) hreplied, ?_⟩
      rw [countP_cons_of_isMute hmute]
      calc solver.unread c w ++ (said ++ later)
          = solver.unread c₁ w₁ ++ later := by rw [hunread, List.append_assoc]
        _ = _ := hlaw
  | @check c c₁ c₂ c' w w₁ w₂ w' rest hsend hreceive _ ih =>
      obtain ⟨hcommand, hrest⟩ := List.forall_mem_cons.1 hlegible
      obtain ⟨haccepted, said, hunread, hreply⟩ := solver.send hsend
      obtain ⟨hsame, hread⟩ := solver.receive hreceive
      obtain ⟨later, hreplied, hlaw⟩ := ih hrest
      rw [hsame, haccepted] at hreplied
      refine ⟨said ++ later, .check (hreply _ (Command.read?_line hcommand)) hreplied, ?_⟩
      calc solver.unread c w ++ (said ++ later)
          = solver.unread c₁ w₁ ++ later := by rw [hunread, List.append_assoc]
        _ = "unsat" :: (solver.unread c₂ w₂ ++ later) := by rw [hread, List.cons_append]
        _ = "unsat" :: (unsats (rest.countP Command.isCheckSat) ++ solver.unread c' w') := by
            rw [hlaw]
        _ = _ := by rw [unsats_checkSat_cons, List.cons_append]

theorem answerCount_of_replied {lines : List String} {commands : List Command}
    {said : List String} (h : Replied lines commands said) :
    answerCount said ≤ commands.countP Command.isCheckSat := by
  induction h with
  | nil => exact Nat.le_refl 0
  | mute hmute hreply _ ih =>
      rw [countP_cons_of_isMute hmute, answerCount_append, hreply.mute hmute, Nat.zero_add]
      exact ih
  | check hreply _ ih =>
      have hsingle := hreply.single
      rw [List.countP_cons_of_pos rfl, answerCount_append]
      omega

theorem append_eq_unsats_iff {said later : List String} {checks : Nat} :
    said ++ later = unsats checks ↔ said.length + later.length = checks ∧
      said = unsats said.length ∧ later = unsats later.length :=
  List.append_eq_replicate_iff

/-- If all that was said is one `unsat` for each check, no declaration was refused, and each check
was answered. -/
theorem trusted_of_replied {lines : List String} {commands : List Command} {said : List String}
    (h : Replied lines commands said) (hlegible : ∀ command ∈ commands, command.IsLegible)
    (hsaid : said = unsats (commands.countP Command.isCheckSat)) {sent : List Command}
    (hsent : lines.mapM Command.read? = some sent) :
    Trusted (Stack.afterAll {} sent) commands := by
  induction h generalizing sent with
  | nil => trivial
  | @mute lines c rest said later hmute hreply _ ih =>
      obtain ⟨hcommand, hrest⟩ := List.forall_mem_cons.1 hlegible
      rw [countP_cons_of_isMute hmute] at hsaid
      obtain ⟨hlength, hunsats, hlater⟩ := append_eq_unsats_iff.1 hsaid
      have hcount := hreply.mute hmute
      rw [hunsats, answerCount_unsats] at hcount
      have hsilent : said = [] := List.length_eq_zero_iff.1 hcount
      have hsent' : (lines ++ [c.line]).mapM Command.read? = some (sent ++ [c]) := by
        simp [List.mapM_append, hsent, Command.read?_line hcommand]
      have hnext := ih hrest (by rw [hlater, ← hlength, hcount, Nat.zero_add]) hsent'
      rw [Stack.afterAll_append] at hnext
      refine ⟨⟨fun name hname hdeclared => ?_, ?_⟩, hnext⟩
      · obtain ⟨line, hline, -⟩ := hreply.refuses name hname ⟨sent, hsent, hdeclared⟩
        rw [hsilent] at hline
        cases hline
      · rintro rfl
        exact hmute.elim
  | @check lines rest said later hreply hreplied ih =>
      obtain ⟨hcommand, hrest⟩ := List.forall_mem_cons.1 hlegible
      rw [List.countP_cons_of_pos rfl] at hsaid
      obtain ⟨hlength, hunsats, hlater⟩ := append_eq_unsats_iff.1 hsaid
      have hone := hreply.single
      rw [hunsats, answerCount_unsats] at hone
      have hfew := answerCount_of_replied hreplied
      rw [hlater, answerCount_unsats] at hfew
      have hanswered : said.length = 1 := by omega
      have hsent' : (lines ++ [Command.checkSat.line]).mapM Command.read? =
          some (sent ++ [.checkSat]) := by
        simp [List.mapM_append, hsent, Command.read?_line hcommand]
      have hnext := ih hrest (by rw [hlater]; congr 1; omega) hsent'
      rw [Stack.afterAll_append] at hnext
      refine ⟨⟨fun name hname => (nomatch hname), fun _ hmodel => ?_⟩, hnext⟩
      refine hreply.unsat rfl ?_ ⟨sent, hsent, hmodel⟩
      rw [hunsats, hanswered]
      exact List.mem_cons_self

namespace Sample

/-- A solver that knows of one assertion that it cannot be true, and has no other reason to answer
`unsat`. -/
structure Novice where
  accepted : List String := []
  unread : List String := []

namespace Novice

/-- That three is not three. -/
def absurdity : Command := .assert (.not (.eq (.int 3) (.int 3)))

/-- The last assertion is all that counts. -/
def verdict (lines : List String) : String :=
  if lines.getLast? = some absurdity.line then "unsat" else "unknown"

def reply (lines : List String) : Command → List String
  | .checkSat => [verdict lines]
  | .sync => [quotedMarker]
  | c => match c.declared? with
    | none => []
    | some name => if DeclaredIn lines name then [redeclared name] else []

def send (line : String) (c : Novice) (w : Unit) : Outcome Unit × Novice × Unit :=
  let said := ((Command.read? line).map (reply c.accepted)).getD []
  (.ok (), ⟨c.accepted ++ [line], c.unread ++ said⟩, w)

def receive (c : Novice) (w : Unit) : Outcome String × Novice × Unit :=
  match c.unread with
  | [] => (.error silence, c, w)
  | line :: rest => (.ok line, { c with unread := rest }, w)

instance : Transport Novice Unit where
  announcement _ := none
  launch w := (.ok {}, w)
  send := send
  receive := receive
  shutdown _ w := (.ok ⟨true, "exit status: 0"⟩, w)

theorem not_satisfiable_of_absurdity {lines : List String}
    (h : lines.getLast? = some absurdity.line) : ¬ Satisfiable lines := by
  rintro ⟨commands, hread, carrier, -, M, hM⟩
  obtain ⟨before, rfl⟩ := List.getLast?_eq_some_iff.1 h
  rw [List.mapM_append] at hread
  obtain ⟨sent, -, hread⟩ := Option.bind_eq_some_iff.1 hread
  have hlast : [absurdity.line].mapM Command.read? = some [absurdity] := rfl
  rw [hlast] at hread
  obtain rfl := Option.some.inj hread
  rw [Stack.afterAll_append] at hM
  have htrue := hM.holds (.not (.eq (.int 3) (.int 3))) List.mem_cons_self
  have hequal : M.eval (.eq (.int 3) (.int 3)) = some (.bool true) :=
    Model.eval_eq_self (Model.eval_int 3) (Model.eval_int 3)
  rw [Model.eval_not hequal] at htrue
  cases htrue

/-- Nothing need be said to a command that declares nothing new. -/
theorem honestReply_nil {lines : List String} {c : Command}
    (hnew : ∀ name, c.declared? = some name → ¬ DeclaredIn lines name) :
    HonestReply lines c [] where
  single := Nat.zero_le 1
  mute _ := rfl
  unsat _ h := absurd h List.not_mem_nil
  refuses name hname hdeclared := absurd hdeclared (hnew name hname)

theorem honestReply_declare {lines : List String} {c : Command} {name : String}
    (hname : c.declared? = some name) :
    HonestReply lines c (if DeclaredIn lines name then [redeclared name] else []) := by
  by_cases hdeclared : DeclaredIn lines name
  · rw [if_pos hdeclared]
    have herror := isErrorLine_redeclared name
    have hnone : answerCount [redeclared name] = 0 := by simp [answerCount, herror]
    refine ⟨hnone ▸ Nat.zero_le 1, fun _ => hnone, ?_, fun _ _ _ => ?_⟩
    · rintro rfl
      cases hname
    · exact ⟨_, List.mem_singleton_self _, herror⟩
  · rw [if_neg hdeclared]
    refine honestReply_nil fun other hother => ?_
    obtain rfl := Option.some.inj (hname.symm.trans hother)
    exact hdeclared

theorem honestReply (lines : List String) (c : Command) :
    HonestReply lines c (reply lines c) := by
  have hsilent : ∀ {c : Command}, c.declared? = none → HonestReply lines c [] := by
    intro c hnone
    refine honestReply_nil fun name hname => ?_
    rw [hnone] at hname
    cases hname
  cases c with
  | checkSat =>
      refine ⟨List.countP_le_length, fun hmute => hmute.elim, fun _ hunsat => ?_, ?_⟩
      · refine not_satisfiable_of_absurdity ?_
        by_contra hother
        rw [reply, verdict, if_neg hother] at hunsat
        exact absurd hunsat (by decide)
      · intro name hname
        cases hname
  | sync =>
      refine ⟨List.countP_le_length, fun hmute => hmute.elim, ?_, ?_⟩
      · intro hc
        cases hc
      · intro name hname
        cases hname
  | declareSort name => exact honestReply_declare rfl
  | declareFun name domain range => exact honestReply_declare rfl
  | declareConst name sort => exact honestReply_declare rfl
  | _ => exact hsilent rfl

/-- The sample is honest. -/
def honest : HonestSolver Novice Unit where
  accepted c _ := c.accepted
  unread c _ := c.unread
  launch h := by
    cases h
    exact ⟨rfl, rfl⟩
  send h := by
    cases h
    refine ⟨rfl, _, rfl, fun command hread => ?_⟩
    rw [hread]
    exact honestReply _ command
  receive {line w w' c c'} h := by
    change receive c w = _ at h
    unfold receive at h
    cases hunread : c.unread with
    | nil =>
        rw [hunread] at h
        cases h
    | cons first rest =>
        rw [hunread] at h
        cases h
        exact ⟨rfl, rfl⟩

end Novice

end Sample

end ContractCheck
