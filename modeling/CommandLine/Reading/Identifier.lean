import CommandLine.Argument.Basic
import CommandLine.Attempt

/-! Reading identifiers, and the objects that they stand for. -/

set_option autoImplicit false

namespace CommandLine.Reading

variable {σ : Type}

/-- The filter is told the tokens that the identifier was read from. -/
def identifier (rules : IdRules σ) (input : Input σ) (inner : Reader) : Reader :=
  fun context cursor =>
    if !cursor.hasNext then .fail (.error (.missing rules.label.shown)) context cursor
    else
      let reading := inner context cursor
      match reading.outcome with
      | .error failure => { reading with outcome := .error (.error failure.rootCause) }
      | .ok none => reading
      | .ok (some id) =>
        let typed := Line.joined (reading.cursor.consumedSince cursor.position)
        match rules.filter.judge input context rules.label.shown typed id with
        | .error cause => { reading with outcome := .error (.error cause) }
        | .ok accepted => { reading with outcome := .ok (some accepted) }

/-- An identifier that stands for nothing is invalid as it would be typed. -/
def object (rules : ObjectRules σ) (render : Value → String) (input : Input σ)
    (id : Reader) : Reader :=
  fun context cursor =>
    let reading := id context cursor
    match reading.outcome with
    | .error failure => { reading with outcome := .error (.error failure.rootCause) }
    | .ok none => reading
    | .ok (some id) =>
      match rules.find input context id with
      | .error cause => { reading with outcome := .error (.error cause) }
      | .ok none =>
        { reading with outcome := .error (.error (.invalid rules.label.shown (render id) none)) }
      | .ok (some found) =>
        match rules.filter.judge input context rules.label.shown (render id) found with
        | .error cause => { reading with outcome := .error (.error cause) }
        | .ok accepted => { reading with outcome := .ok (some accepted) }

end CommandLine.Reading
