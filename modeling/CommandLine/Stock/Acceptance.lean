import CommandLine.Stock.Source

/-! Ready-made acceptance tests. -/

set_option autoImplicit false

namespace CommandLine.Stock

inductive Acceptance where
  | even
  | notLeading (lead : String)
  | isOpen
  | contextHas (name : String)
  | notInContext (name : String)
  | invokerHas (field : String)
  | nothing

namespace Acceptance

def holds (acceptance : Acceptance) (input : Input Profile) (context : Context)
    (value : Value) : Bool :=
  match acceptance with
  | .even =>
    match value.number? with
    | some number => number % 2 == 0
    | none => false
  | .notLeading lead => !Text.startsWith value.shown lead
  | .isOpen => value.attribute? "open" = some (.boolean true)
  | .contextHas name => context.has name
  | .notInContext name => context.get? name ≠ some value
  | .invokerHas field => input.invoker.get? field = some value
  | .nothing => false

/-- With a message of one's own, a rejection lists all that is known about it. -/
def filter (acceptance : Acceptance) (message : Option String) : Filter Profile where
  accepts := acceptance.holds
  message := fun argument typed value =>
    match message with
    | none => Filter.refusal argument typed value
    | some message => message ++ "|" ++ argument ++ "|" ++ typed ++ "|" ++ value.shown

end Acceptance

end CommandLine.Stock
