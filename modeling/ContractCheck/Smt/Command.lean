import ContractCheck.Smt.SExpr

/-!
The solver commands that a session sends, and the line that each is sent as.
-/

namespace ContractCheck

inductive Command where
  /-- Lets a scope forget its declarations when it is left. -/
  | scopedDeclarations
  | push
  | pop
  | checkSat
  /-- The solver repeats the marker once it has processed all commands before. -/
  | sync
  | exit
  | declareSort (name : String)
  | declareFun (name : String) (domain : List String) (range : String)
  | declareConst (name sort : String)
  | assert (term : Term)

namespace Command

def syncMarker : String := "refine-sync"

def toSExpr : Command → SExpr
  | .scopedDeclarations => .apply "set-option" [.atom ":global-declarations", .atom "false"]
  | .push => .apply "push" [.atom "1"]
  | .pop => .apply "pop" [.atom "1"]
  | .checkSat => .apply "check-sat" []
  | .sync => .apply "echo" [.atom ("\"" ++ syncMarker ++ "\"")]
  | .exit => .apply "exit" []
  | .declareSort name => .apply "declare-sort" [.atom name, .atom "0"]
  | .declareFun name domain range =>
    .apply "declare-fun" [.atom name, .list (domain.map .atom), .atom range]
  | .declareConst name sort => .apply "declare-const" [.atom name, .atom sort]
  | .assert term => .apply "assert" [term]

def line (c : Command) : String := c.toSExpr.render

theorem line_push : push.line = "(push 1)" := rfl

theorem line_pop : pop.line = "(pop 1)" := rfl

theorem line_checkSat : checkSat.line = "(check-sat)" := rfl

end Command

end ContractCheck
